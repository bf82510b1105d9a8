import Kamiroh.Wire.Basic

/-!
# What an act does

`act_did` is the inversion of `act`: an accepted message or batch is a list of parcels, which are
either held together or put into their mailboxes together.
-/

namespace Kamiroh.Wire

/-! ## Placing -/

section

variable (w : Wire) (parcel : Parcel) (parcels : List Parcel)

theorem lookup_place (address : Address) :
    (w.place parcel).boxes.lookup address = (w.boxes.lookup address).map fun box =>
      if parcel.target = address then
        { box with queue := box.queue ++ [parcel], waker := none }
      else box := by
  unfold place
  by_cases haddress : parcel.target = address
  · subst haddress
    cases hbox : w.boxes.lookup parcel.target <;> simp [hbox]
  · cases hbox : w.boxes.lookup parcel.target with
    | none => simp [haddress]
    | some box => simp [haddress, AList.lookup_insert_ne (Ne.symm haddress)]

theorem place_frame :
    (w.place parcel).partitions = w.partitions ∧ (w.place parcel).held = w.held ∧
      (w.place parcel).handles = w.handles ∧ (w.place parcel).registered = w.registered ∧
      (w.place parcel).accepted = w.accepted ∧ (w.place parcel).received = w.received ∧
      (w.place parcel).removed = w.removed ∧ (w.place parcel).kills = w.kills := by
  unfold place
  split <;> exact ⟨rfl, rfl, rfl, rfl, rfl, rfl, rfl, rfl⟩

theorem placeAll_frame :
    (w.placeAll parcels).partitions = w.partitions ∧ (w.placeAll parcels).held = w.held ∧
      (w.placeAll parcels).handles = w.handles ∧ (w.placeAll parcels).registered = w.registered ∧
      (w.placeAll parcels).accepted = w.accepted ∧ (w.placeAll parcels).received = w.received ∧
      (w.placeAll parcels).removed = w.removed ∧ (w.placeAll parcels).kills = w.kills := by
  induction parcels generalizing w with
  | nil => exact ⟨rfl, rfl, rfl, rfl, rfl, rfl, rfl, rfl⟩
  | cons parcel parcels ih =>
    have hplace := w.place_frame parcel
    have hrest := ih (w.place parcel)
    simp only [hplace] at hrest
    exact hrest

@[simp] theorem place_accepted : (w.place parcel).accepted = w.accepted := (w.place_frame parcel).2.2.2.2.1

@[simp] theorem place_received : (w.place parcel).received = w.received := (w.place_frame parcel).2.2.2.2.2.1

@[simp] theorem placeAll_partitions : (w.placeAll parcels).partitions = w.partitions :=
  (w.placeAll_frame parcels).1

@[simp] theorem placeAll_held : (w.placeAll parcels).held = w.held :=
  (w.placeAll_frame parcels).2.1

@[simp] theorem placeAll_handles : (w.placeAll parcels).handles = w.handles :=
  (w.placeAll_frame parcels).2.2.1

@[simp] theorem placeAll_registered : (w.placeAll parcels).registered = w.registered :=
  (w.placeAll_frame parcels).2.2.2.1

@[simp] theorem placeAll_accepted : (w.placeAll parcels).accepted = w.accepted :=
  (w.placeAll_frame parcels).2.2.2.2.1

@[simp] theorem placeAll_received : (w.placeAll parcels).received = w.received :=
  (w.placeAll_frame parcels).2.2.2.2.2.1

@[simp] theorem placeAll_removed : (w.placeAll parcels).removed = w.removed :=
  (w.placeAll_frame parcels).2.2.2.2.2.2.1

@[simp] theorem placeAll_kills : (w.placeAll parcels).kills = w.kills :=
  (w.placeAll_frame parcels).2.2.2.2.2.2.2

theorem lookup_placeAll (address : Address) :
    (w.placeAll parcels).boxes.lookup address = (w.boxes.lookup address).map fun box =>
      ⟨box.owner, box.queue ++ parcels.filter fun parcel => parcel.target = address,
        if parcels.any fun parcel => parcel.target = address then none else box.waker⟩ := by
  induction parcels generalizing w with
  | nil => cases hbox : w.boxes.lookup address <;> simp [placeAll, hbox]
  | cons parcel parcels ih =>
    rw [placeAll, List.foldl_cons]
    refine (ih (w.place parcel)).trans ?_
    rw [lookup_place, Option.map_map]
    refine Option.map_congr fun box _ => ?_
    by_cases haddress : parcel.target = address
    · simp [haddress]
    · simp [haddress]

theorem isSome_lookup_place (address : Address) :
    ((w.place parcel).boxes.lookup address).isSome = (w.boxes.lookup address).isSome := by
  rw [lookup_place, Option.isSome_map]

theorem lives_iff (endpoint : EndpointId) :
    w.lives endpoint = true ↔
      ∃ address, (w.boxes.lookup address).isSome = true ∧ address.endpoint = endpoint := by
  simp only [lives, Bool.not_eq_true', List.all_eq_false, AList.lookup_isSome, ← AList.mem_keys,
    decide_eq_true_eq, not_not]

theorem lives_place (endpoint : EndpointId) :
    (w.place parcel).lives endpoint = w.lives endpoint := by
  rw [Bool.eq_iff_iff, lives_iff, lives_iff]
  simp only [isSome_lookup_place]

theorem unplaced_placeAll :
    (w.placeAll parcels).unplaced =
      w.unplaced ++ parcels.filter fun parcel => (w.boxes.lookup parcel.target).isNone := by
  induction parcels generalizing w with
  | nil => simp [placeAll]
  | cons parcel parcels ih =>
    rw [placeAll, List.foldl_cons]
    refine (ih (w.place parcel)).trans ?_
    simp only [← Option.not_isSome, isSome_lookup_place]
    unfold place
    cases hbox : w.boxes.lookup parcel.target <;> simp [hbox]

theorem placements_placeAll :
    (w.placeAll parcels).placements = w.placements ++
      (parcels.filter fun parcel => (w.boxes.lookup parcel.target).isSome).map fun parcel =>
        ⟨parcel, w.lives parcel.origin⟩ := by
  induction parcels generalizing w with
  | nil => simp [placeAll]
  | cons parcel parcels ih =>
    rw [placeAll, List.foldl_cons]
    refine (ih (w.place parcel)).trans ?_
    simp only [isSome_lookup_place, lives_place]
    unfold place
    cases hbox : w.boxes.lookup parcel.target <;> simp [hbox]

end

/-! ## The other operations -/

theorem lookup_drop (w : Wire) (handle : Handle) (address : Address) :
    (w.drop handle).boxes.lookup address =
      if address = handle.address then none else w.boxes.lookup address := by
  by_cases haddress : address = handle.address
  · subst haddress
    simp [drop]
  · simp [drop, haddress, AList.lookup_erase_ne haddress]

theorem lookup_kill (w : Wire) (endpoint : EndpointId) (address : Address) :
    (w.kill endpoint).boxes.lookup address =
      if address.endpoint = endpoint then none else w.boxes.lookup address := by
  refine (w.boxes.lookup_eraseAll _ address).trans ?_
  simp only [Assoc.mem_keysWhere]
  by_cases hendpoint : address.endpoint = endpoint
  · cases h : w.boxes.lookup address <;> simp [hendpoint]
  · simp [hendpoint]

theorem handle_some {w : Wire} {id : Nat} {handle : Handle} (h : w.handle id = some handle) :
    handle ∈ w.handles ∧ handle.id = id :=
  ⟨List.mem_of_find?_eq_some h, by simpa using List.find?_some h⟩

/-! ## The inversion of an act -/

/-- What one successful call between two endpoints hands to the network. -/
structure Accepts (w : Wire) (a b : EndpointId) (parcels : List Parcel) : Prop where
  stamps : parcels.map (·.stamp) = List.range' w.accepted.length parcels.length
  pair : ∀ parcel ∈ parcels, between a b parcel = true
  lives : ∀ parcel ∈ parcels, parcel.receipt = true → w.lives parcel.origin = true

inductive Did (w : Wire) : Act → Wire → Prop
  | same (a : Act) (deathWatchers : List DeathQueue) : Did w a { w with deathWatchers }
  | bound (address : Address) (hfree : w.boxes.lookup address = none) :
    Did w (.Register address)
      { w with
        boxes := w.boxes.insert address ⟨w.registered, [], none⟩
        handles := w.handles ++ [⟨w.registered, address⟩]
        registered := w.registered + 1 }
  | dropped (id : Nat) (handle : Handle) (hhandle : w.handle id = some handle) :
    Did w (.Drop id) (w.drop handle)
  | held (a : Act) {c d : EndpointId} (parcels : List Parcel) (haccepts : Accepts w c d parcels)
      (hpartition : (c, d) ∈ w.partitions) :
    Did w a { w with accepted := w.accepted ++ parcels, held := w.held ++ parcels }
  | placed (a : Act) {c d : EndpointId} (parcels : List Parcel) (haccepts : Accepts w c d parcels)
      (hpartition : (c, d) ∉ w.partitions) :
    Did w a ({ w with accepted := w.accepted ++ parcels }.placeAll parcels)
  | parted (c d : EndpointId) : Did w (.Partition c d) (w.partition c d)
  | healed (c d : EndpointId) : Did w (.Heal c d) (w.heal c d)
  | killed (endpoint : EndpointId) : Did w (.Kill endpoint) (w.kill endpoint)
  | waits (a : Act) (address : Address) (box : Box) (hbox : w.boxes.lookup address = some box)
      (waker : Option Waker) :
    Did w a { w with boxes := w.boxes.insert address { box with waker } }
  | received (id : Nat) (waker : Waker) (handle : Handle) (hhandle : w.handle id = some handle)
      (box : Box) (hbox : w.boxes.lookup handle.address = some box) (parcel : Parcel)
      (queue : List Parcel) (hqueue : box.queue = parcel :: queue) :
    Did w (.PollNext id waker)
      { w with
        boxes := w.boxes.insert handle.address { box with queue }
        received := w.received ++ [(handle, parcel)] }

theorem accepts_send (w : Wire) (origin target : Address) (message : Message) :
    Accepts w origin.endpoint target.endpoint
      [⟨⟨origin, target, message⟩, w.accepted.length, false⟩] where
  stamps := rfl
  pair := by simp [between, Shared.between]
  lives := by simp

theorem accepts_batch (w : Wire) (origin : Address) (toEndpoint : EndpointId)
    (toNames : List ActorName) (request : Request) (h : w.lives toEndpoint = true) :
    Accepts w origin.endpoint toEndpoint
      (batch w.accepted.length origin toEndpoint toNames request) where
  stamps := by
    have hnames : ((toNames.zipIdx (w.accepted.length + 1)).map (·.2)) =
        List.range' (w.accepted.length + 1) toNames.length := List.zipIdx_map_snd ..
    simp only [batch, List.map_cons, List.map_map, Function.comp_def, List.length_cons,
      List.length_map, List.length_zipIdx, List.range'_succ]
    rw [← hnames]
  pair := by
    intro parcel hparcel
    rcases List.mem_cons.mp hparcel with rfl | hparcel
    · simp [between, Shared.between, batchReceiptSender]
    · obtain ⟨name, -, rfl⟩ := List.mem_map.mp hparcel
      simp [between, Shared.between]
  lives := by
    intro parcel hparcel hreceipt
    rcases List.mem_cons.mp hparcel with rfl | hparcel
    · exact h
    · obtain ⟨name, -, rfl⟩ := List.mem_map.mp hparcel
      cases hreceipt

theorem act_did (w : Wire) (a : Act) : Did w a (w.act a) := by
  cases a with
  | Register address =>
    simp only [act, register]
    cases hfree : w.boxes.lookup address with
    | none => exact .bound address hfree
    | some box => exact .same _ w.deathWatchers
  | Drop id =>
    simp only [act]
    cases hhandle : w.handle id with
    | none => exact .same _ w.deathWatchers
    | some handle => exact .dropped id handle hhandle
  | Send origin target message =>
    have haccepts := w.accepts_send origin target message
    simp only [act, send]
    split
    · rename_i hpartition
      exact .held _ _ haccepts hpartition
    · rename_i hpartition
      split
      · exact .placed _ _ haccepts hpartition
      · exact .same _ w.deathWatchers
  | OpenMany origin toEndpoint toNames request =>
    simp only [act, openMany]
    split
    · exact .same _ w.deathWatchers
    · rename_i hdead
      have hlives : w.lives toEndpoint = true := by
        rw [lives, Bool.eq_false_of_not_eq_true hdead]
        rfl
      have haccepts := w.accepts_batch origin toEndpoint toNames request hlives
      split
      · rename_i hpartition
        exact .held _ _ haccepts hpartition
      · rename_i hpartition
        exact .placed _ _ haccepts hpartition
  | Partition c d => exact .parted c d
  | Heal c d => exact .healed c d
  | DeathWatch => exact .same _ _
  | Kill endpoint => exact .killed endpoint
  | PushDeath endpoint watch => exact .same _ _
  | PollNext id waker =>
    simp only [act]
    cases hhandle : w.handle id with
    | none => exact .same _ w.deathWatchers
    | some handle =>
      simp only [pollNext]
      cases hbox : w.boxes.lookup handle.address with
      | none => exact .same _ w.deathWatchers
      | some box =>
        obtain ⟨owner, queue, mine⟩ := box
        cases queue with
        | nil => exact .waits _ handle.address _ hbox (some waker)
        | cons parcel queue => exact .received id waker handle hhandle _ hbox parcel queue rfl
  | PollDeath watch waker => exact .same _ _

/-! ## The history is true -/

/-- What the owners of inboxes received. -/
def handedOut (w : Wire) : List (Address × Delivery) :=
  w.received.map fun received => (received.1.address, received.2.delivery)

section

variable (w : Wire)

theorem accepted_send (origin target : Address) (message : Message) :
    (w.send origin target message).2.accepted.map (·.delivery) =
      w.accepted.map (·.delivery) ++ w.net.brought (.Send origin target message) := by
  unfold Shared.brought
  dsimp only
  rw [← (w.net_send origin target message).1]
  unfold send
  split
  · simp [Except.isOk, Except.toBool, Shared.Op.brings]
  · split <;> simp [Except.isOk, Except.toBool, Shared.Op.brings]

theorem accepted_openMany (origin : Address) (toEndpoint : EndpointId) (toNames : List ActorName)
    (request : Request) :
    (w.openMany origin toEndpoint toNames request).2.accepted.map (·.delivery) =
      w.accepted.map (·.delivery) ++ w.net.brought (.OpenMany origin toEndpoint toNames request) := by
  unfold Shared.brought
  dsimp only
  rw [← (w.net_openMany origin toEndpoint toNames request).1]
  unfold openMany
  split
  · simp [Except.isOk, Except.toBool]
  · split <;> simp [Except.isOk, Except.toBool, Shared.Op.brings, batch_delivery]

theorem handedOut_pollNext (handle : Handle) (waker : Waker) :
    (w.pollNext handle waker).2.handedOut =
      w.handedOut ++ w.net.returned (.PollNext handle.inbox waker) := by
  unfold Shared.returned handedOut
  dsimp only
  rw [(w.net_pollNext handle waker).1]
  unfold pollNext
  split
  · simp
  · split <;> simp [Handle.inbox]

theorem history_act (a : Act) :
    (w.act a).accepted.map (·.delivery) =
        w.accepted.map (·.delivery) ++ (w.op a).toList.flatMap w.net.brought ∧
      (w.act a).handedOut = w.handedOut ++ (w.op a).toList.flatMap w.net.returned := by
  cases a with
  | Send origin target message =>
    refine ⟨by simpa [act, op] using w.accepted_send origin target message, ?_⟩
    simp only [act, send]
    split
    · simp [op, handedOut, Shared.returned]
    · split <;> simp [op, handedOut, Shared.returned]
  | OpenMany origin toEndpoint toNames request =>
    refine ⟨by simpa [act, op] using w.accepted_openMany origin toEndpoint toNames request, ?_⟩
    simp only [act, openMany]
    split
    · simp [op, Shared.returned]
    · split <;> simp [op, handedOut, Shared.returned]
  | PollNext id waker =>
    simp only [act, op]
    cases w.handle id with
    | none => simp
    | some handle =>
      refine ⟨?_, by simpa using w.handedOut_pollNext handle waker⟩
      simp only [pollNext]
      split
      · simp [Shared.brought]
      · split <;> simp [Shared.brought]
  | Register address =>
    simp only [act, register]
    split <;> simp [op, handedOut, Shared.brought, Shared.returned]
  | Drop id =>
    simp only [act, op]
    cases w.handle id <;> simp [drop, handedOut, Shared.brought, Shared.returned]
  | Heal a b => simp [act, op, heal, handedOut, Shared.brought, Shared.returned]
  | Partition _ _ | DeathWatch | Kill _ | PushDeath _ _ | PollDeath _ _ =>
    simp [act, op, partition, kill, handedOut, Shared.brought, Shared.returned]

end

/-- The history of a run is what its operations left with the network and what they returned. -/
theorem history_after (acts : List Act) :
    (new.after acts).accepted.map (·.delivery) =
        Run.outputs (fun net op => (net.run op, net.brought op)) new.net (new.ops acts) ∧
      (new.after acts).handedOut =
        Run.outputs (fun net op => (net.run op, net.returned op)) new.net (new.ops acts) := by
  induction acts using List.reverseRecOn with
  | nil => exact ⟨rfl, rfl⟩
  | append_singleton acts a ih =>
    have hact := (new.after acts).history_act a
    have hnet := new.net_after acts
    have hlast : new.after (acts ++ [a]) = (new.after acts).act a := Run.after_append ..
    have hops : new.ops (acts ++ [a]) = new.ops acts ++ ((new.after acts).op a).toList := by
      rw [ops, Run.outputs_append]
      exact congrArg (new.ops acts ++ ·) (List.append_nil _)
    rw [hlast, hops, Run.outputs_append, Run.outputs_append, ← ih.1, ← ih.2, hact.1, hact.2, hnet]
    cases (new.after acts).op a <;> simp [Run.outputs]

/-! ## What an act leaves behind -/

/-- The act can put the parcel into a mailbox. -/
def Arrives (w : Wire) (a : Act) (parcel : Parcel) : Prop :=
  w.accepted.length ≤ parcel.stamp ∨
    ∃ c d, a = .Heal c d ∧ parcel ∈ w.held ∧ between c d parcel = true

theorem Accepts.fresh {w : Wire} {a b : EndpointId} {parcels : List Parcel}
    (h : Accepts w a b parcels) {parcel : Parcel} (hparcel : parcel ∈ parcels) :
    w.accepted.length ≤ parcel.stamp := by
  have hstamp : parcel.stamp ∈ parcels.map (·.stamp) := List.mem_map_of_mem hparcel
  rw [h.stamps, List.mem_range'_1] at hstamp
  exact hstamp.1

/-- The mailbox was there before the act, and what came in arrived. -/
def Carried (w : Wire) (a : Act) (address : Address) (box : Box) : Prop :=
  ∃ box₀, w.boxes.lookup address = some box₀ ∧ box.owner = box₀.owner ∧
    ∀ parcel ∈ box.queue, parcel ∈ box₀.queue ∨ (Arrives w a parcel ∧ parcel.target = address)

theorem carried_same {w : Wire} {a : Act} {address : Address} {box : Box}
    (h : w.boxes.lookup address = some box) : Carried w a address box :=
  ⟨box, h, rfl, fun _ hparcel => Or.inl hparcel⟩

theorem carried_placeAll {w w₀ : Wire} {a : Act} {address : Address} {box : Box} {parcels : List Parcel}
    (h : (w₀.placeAll parcels).boxes.lookup address = some box) (hsame : w₀.boxes = w.boxes)
    (harrives : ∀ parcel ∈ parcels, Arrives w a parcel) : Carried w a address box := by
  rw [lookup_placeAll, hsame] at h
  obtain ⟨box₀, hbox₀, rfl⟩ := Option.map_eq_some_iff.mp h
  refine ⟨box₀, hbox₀, rfl, fun parcel hparcel => ?_⟩
  rcases List.mem_append.mp hparcel with hparcel | hparcel
  · exact Or.inl hparcel
  · obtain ⟨hparcel, htarget⟩ := List.mem_filter.mp hparcel
    exact Or.inr ⟨harrives parcel hparcel, of_decide_eq_true htarget⟩

theorem carried_insert {w : Wire} {a : Act} {address address' : Address} {box box₁ box' : Box}
    (h : (w.boxes.insert address' box').lookup address = some box)
    (hbox₁ : w.boxes.lookup address' = some box₁) (howner : box'.owner = box₁.owner)
    (hqueue : ∀ parcel ∈ box'.queue, parcel ∈ box₁.queue) : Carried w a address box := by
  by_cases haddress : address = address'
  · subst haddress
    rw [AList.lookup_insert, Option.some.injEq] at h
    subst h
    exact ⟨box₁, hbox₁, howner, fun parcel hparcel => Or.inl (hqueue parcel hparcel)⟩
  · rw [AList.lookup_insert_ne haddress] at h
    exact carried_same h

theorem box_act {w w' : Wire} {a : Act} (hdid : Did w a w') {address : Address} {box : Box}
    (hbox : w'.boxes.lookup address = some box) :
    Carried w a address box ∨ (a = .Register address ∧ w.boxes.lookup address = none ∧
      box.owner = w.registered ∧ box.queue = []) := by
  cases hdid with
  | bound address' hfree =>
    by_cases haddress : address = address'
    · subst haddress
      rw [AList.lookup_insert, Option.some.injEq] at hbox
      subst hbox
      exact Or.inr ⟨rfl, hfree, rfl, rfl⟩
    · rw [AList.lookup_insert_ne haddress] at hbox
      exact Or.inl (carried_same hbox)
  | dropped id handle hhandle =>
    rw [lookup_drop] at hbox
    split at hbox
    · cases hbox
    · exact Or.inl (carried_same hbox)
  | killed endpoint =>
    rw [lookup_kill] at hbox
    split at hbox
    · cases hbox
    · exact Or.inl (carried_same hbox)
  | placed _ parcels haccepts hpartition =>
    exact Or.inl (carried_placeAll hbox rfl fun _ hparcel => Or.inl (haccepts.fresh hparcel))
  | healed c d =>
    refine Or.inl (carried_placeAll hbox rfl fun parcel hparcel => ?_)
    obtain ⟨hheld, hbetween⟩ := List.mem_filter.mp hparcel
    exact Or.inr ⟨c, d, rfl, hheld, hbetween⟩
  | waits _ address' box₁ hbox₁ waker =>
    exact Or.inl (carried_insert hbox hbox₁ rfl fun _ hparcel => hparcel)
  | received id waker handle hhandle box₁ hbox₁ first queue hqueue =>
    refine Or.inl (carried_insert hbox hbox₁ rfl fun parcel hparcel => ?_)
    rw [hqueue]
    exact List.mem_cons_of_mem first hparcel
  | same _ deathWatchers => exact Or.inl (carried_same hbox)
  | held _ parcels haccepts hpartition => exact Or.inl (carried_same hbox)
  | parted c d => exact Or.inl (carried_same hbox)

theorem received_act {w w' : Wire} {a : Act} (hdid : Did w a w') {entry : Handle × Parcel}
    (h : entry ∈ w'.received) :
    entry ∈ w.received ∨ (entry.1 ∈ w.handles ∧
      ∃ box, w.boxes.lookup entry.1.address = some box ∧ entry.2 ∈ box.queue) := by
  cases hdid with
  | received id waker handle hhandle box hbox first queue hqueue =>
    rcases List.mem_append.mp h with h | h
    · exact Or.inl h
    · rw [List.mem_singleton.mp h]
      exact Or.inr ⟨(handle_some hhandle).1, box, hbox, by simp [hqueue]⟩
  | placed _ parcels haccepts hpartition => exact Or.inl (by simpa using h)
  | healed c d => exact Or.inl (by simpa [heal] using h)
  | _ => exact Or.inl h

theorem registered_act {w w' : Wire} {a : Act} (hdid : Did w a w') : w.registered ≤ w'.registered := by
  cases hdid with
  | bound address hfree => exact Nat.le_succ _
  | placed _ parcels haccepts hpartition => simp
  | healed c d => simp [heal]
  | _ => exact le_rfl

theorem handles_act {w w' : Wire} {a : Act} (hdid : Did w a w') {handle : Handle}
    (h : handle ∈ w'.handles) :
    handle ∈ w.handles ∨
      (a = .Register handle.address ∧ w.boxes.lookup handle.address = none ∧
        handle.id = w.registered ∧ w'.registered = w.registered + 1) := by
  cases hdid with
  | bound address hfree =>
    rcases List.mem_append.mp h with h | h
    · exact Or.inl h
    · rw [List.mem_singleton.mp h]
      exact Or.inr ⟨rfl, hfree, rfl, rfl⟩
  | dropped id handle' hhandle => exact Or.inl (List.mem_of_mem_erase h)
  | placed _ parcels haccepts hpartition => exact Or.inl (by simpa using h)
  | healed c d => exact Or.inl (by simpa [heal] using h)
  | _ => exact Or.inl h

theorem kills_act {w w' : Wire} {a : Act} (hdid : Did w a w') {kill : Kill} (h : kill ∈ w'.kills) :
    kill ∈ w.kills ∨
      (w' = w.kill kill.endpoint ∧ kill.accepted = w.accepted.length ∧
        kill.registered = w.registered) := by
  cases hdid with
  | killed endpoint =>
    rcases List.mem_append.mp h with h | h
    · exact Or.inl h
    · rw [List.mem_singleton.mp h]
      exact Or.inr ⟨rfl, rfl, rfl⟩
  | placed _ parcels haccepts hpartition => exact Or.inl (by simpa using h)
  | healed c d => exact Or.inl (by simpa [heal] using h)
  | _ => exact Or.inl h

end Kamiroh.Wire
