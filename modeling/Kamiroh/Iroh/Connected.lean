import Kamiroh.Iroh.Connections

/-!
# No connected peer is reported

The guard of `watch_connection` asks the cache, which knows one connection of a peer. A peer may have
several, and `orderly` says when one is enough.
-/

namespace Kamiroh.Iroh.IrohShared

variable {shared : IrohShared}

/-! ## What the cache and the connections have to do with each other -/

/-- The cache has a peer's own connections, all watched, and none that this side has closed or is about
to close. -/
structure Sane (shared : IrohShared) : Prop where
  cached : ∀ peer c, shared.connections.lookup peer = some c → c ∉ shared.removed ∧
    ∃ link : Link, shared.links[c]? = some link ∧ link.remote = peer ∧ link.stage ≠ .Accepted ∧
      link.reason ≠ some .LocallyClosed
  removed : ∀ c ∈ shared.removed, ∃ link : Link,
    shared.links[c]? = some link ∧ link.stage ≠ .Accepted
  locally : ∀ (c : ConnId) (link : Link), shared.links[c]? = some link → link.reason = some .LocallyClosed →
    link.stage ≠ .Accepted

theorem snoc_link {links : List Link} {new link : Link} {c : ConnId} :
    (links ++ [new])[c]? = some link ↔ links[c]? = some link ∨ c = links.length ∧ link = new := by
  rw [List.getElem?_append]
  split
  · rename_i hlt
    exact ⟨Or.inl, fun h => h.resolve_right fun hnew => Nat.ne_of_lt hlt hnew.1⟩
  · rename_i hge
    rw [List.getElem?_eq_none (Nat.le_of_not_lt hge), List.getElem?_singleton]
    constructor
    · intro h
      split at h
      · rename_i hzero
        cases h
        exact Or.inr ⟨Nat.le_antisymm (Nat.le_of_sub_eq_zero hzero) (Nat.le_of_not_lt hge), rfl⟩
      · cases h
    · rintro (h | ⟨rfl, rfl⟩)
      · cases h
      · simp

theorem modify_link {links : List Link} {c o : ConnId} {change : Link → Link} {link : Link} :
    (links.modify c change)[o]? = some link ↔
      ∃ link₀, links[o]? = some link₀ ∧ (if c = o then change link₀ else link₀) = link := by
  rw [List.getElem?_modify]
  exact Option.map_eq_some_iff

@[simp] theorem close_remote (link : Link) (reason : ConnectionError) :
    (link.close reason).remote = link.remote := by
  unfold Link.close
  split <;> rfl

@[simp] theorem close_stage (link : Link) (reason : ConnectionError) :
    (link.close reason).stage = link.stage := by
  unfold Link.close
  split <;> rfl

theorem close_reason (link : Link) (reason : ConnectionError) :
    (link.close reason).reason = some (link.reason.getD reason) := by
  unfold Link.close
  split <;> simp_all

theorem Sane.change (h : shared.Sane) (c : ConnId) (change : Link → Link)
    (hremote : ∀ link, (change link).remote = link.remote)
    (hstage : ∀ link, link.stage ≠ .Accepted → (change link).stage ≠ .Accepted)
    (hlocally : ∀ link, shared.links[c]? = some link → (change link).reason = some .LocallyClosed →
      (change link).stage ≠ .Accepted ∧
        (link.reason = some .LocallyClosed ∨ ∀ peer, shared.connections.lookup peer ≠ some c)) :
    Sane { shared with links := shared.links.modify c change } := by
  have hkept : ∀ (o : ConnId) (link : Link), shared.links[o]? = some link →
      (shared.links.modify c change)[o]? = some (if c = o then change link else link) :=
    fun o link hlink => modify_link.mpr ⟨link, hlink, rfl⟩
  refine ⟨fun peer o hcached => ?_, fun o ho => ?_, fun o link hlink hreason => ?_⟩
  · obtain ⟨hremoved, link, hlink, hpeer, haccepted, hreason⟩ := h.cached peer o hcached
    refine ⟨hremoved, _, hkept o link hlink, ?_⟩
    split
    · rename_i hc
      subst hc
      refine ⟨(hremote link).trans hpeer, hstage link haccepted, fun hlocal => ?_⟩
      rcases (hlocally link hlink hlocal).2 with hbefore | huncached
      · exact hreason hbefore
      · exact huncached peer hcached
    · exact ⟨hpeer, haccepted, hreason⟩
  · obtain ⟨link, hlink, haccepted⟩ := h.removed o ho
    refine ⟨_, hkept o link hlink, ?_⟩
    split
    · exact hstage link haccepted
    · exact haccepted
  · obtain ⟨link₀, hlink₀, rfl⟩ := modify_link.mp hlink
    split at hreason
    · rename_i hc
      subst hc
      rw [if_pos rfl]
      exact (hlocally link₀ hlink₀ hreason).1
    · rename_i hc
      rw [if_neg hc]
      exact h.locally o link₀ hlink₀ hreason

theorem Sane.snoc (h : shared.Sane) (remote : EndpointId) (stage : Stage) :
    Sane { shared with links := shared.links ++ [⟨remote, none, stage⟩] } := by
  refine ⟨fun peer c hcached => ?_, fun c hc => ?_, fun c link hlink hreason => ?_⟩
  · obtain ⟨hremoved, link, hlink, hlinked⟩ := h.cached peer c hcached
    exact ⟨hremoved, link, snoc_link.mpr (Or.inl hlink), hlinked⟩
  · obtain ⟨link, hlink, haccepted⟩ := h.removed c hc
    exact ⟨link, snoc_link.mpr (Or.inl hlink), haccepted⟩
  · rcases snoc_link.mp hlink with hlink | ⟨rfl, rfl⟩
    · exact h.locally c link hlink hreason
    · cases hreason

theorem Sane.insert (h : shared.Sane) {c : ConnId} {link : Link} (hlink : shared.links[c]? = some link)
    (hremoved : c ∉ shared.removed) (hstage : link.stage ≠ .Accepted)
    (hreason : link.reason ≠ some .LocallyClosed) :
    Sane { shared with connections := shared.connections.insert link.remote c } := by
  refine ⟨fun peer o hcached => ?_, h.removed, h.locally⟩
  by_cases hpeer : peer = link.remote
  · subst hpeer
    rw [AList.lookup_insert] at hcached
    cases hcached
    exact ⟨hremoved, link, hlink, rfl, hstage, hreason⟩
  · rw [AList.lookup_insert_ne hpeer] at hcached
    exact h.cached peer o hcached

theorem Sane.erase (h : shared.Sane) (peer : EndpointId) :
    Sane { shared with connections := shared.connections.erase peer } := by
  refine ⟨fun peer' c hcached => ?_, h.removed, h.locally⟩
  by_cases hpeer : peer' = peer
  · subst hpeer
    rw [AList.lookup_erase] at hcached
    cases hcached
  · rw [AList.lookup_erase_ne hpeer] at hcached
    exact h.cached peer' c hcached

theorem Sane.accepted (h : shared.Sane) (c : ConnId) : (shared.accepted c).Sane := by
  unfold IrohShared.accepted
  split
  · rename_i link hlink
    split
    · rename_i hstage
      have hwatched := h.change c (fun link => { link with stage := .Watched }) (fun _ => rfl) (by simp)
        fun _ _ hreason => ⟨by simp, Or.inl hreason⟩
      have hremoved : c ∉ shared.removed := by
        intro hremoved
        obtain ⟨link', hlink', haccepted⟩ := h.removed c hremoved
        cases hlink.symm.trans hlink'
        exact haccepted hstage
      have hcached := hwatched.insert (modify_link.mpr ⟨link, hlink, if_pos rfl⟩) hremoved (by simp)
        fun hreason => h.locally c link hlink hreason hstage
      exact hcached
    · exact h
  · exact h

/-- The peer's new connection is open, watched and cached. -/
def joined (shared : IrohShared) (peer : EndpointId) : IrohShared :=
  { shared with
    connections := shared.connections.insert peer shared.links.length
    links := shared.links ++ [⟨peer, none, .Watched⟩] }

theorem connectionTo_cases (shared : IrohShared) (peer : EndpointId) (forceFresh : Bool)
    (dialed : Except String Unit) :
    (shared.connectionTo peer forceFresh dialed).2 = shared ∨
      (shared.connectionTo peer forceFresh dialed).2 = shared.joined peer := by
  have hdial : (shared.dial peer dialed).2 = shared ∨
      (shared.dial peer dialed).2 = shared.joined peer := by
    unfold dial
    split
    · exact Or.inl rfl
    · split
      · exact Or.inl rfl
      · exact Or.inr rfl
  unfold connectionTo
  split
  · exact hdial
  · split
    · exact Or.inl rfl
    · exact hdial

theorem Sane.connectionTo (h : shared.Sane) (peer : EndpointId) (forceFresh : Bool)
    (dialed : Except String Unit) : (shared.connectionTo peer forceFresh dialed).2.Sane := by
  rcases shared.connectionTo_cases peer forceFresh dialed with hsame | hjoined
  · rwa [hsame]
  · have hremoved : shared.links.length ∉ shared.removed := by
      intro hremoved
      obtain ⟨link, hlink, -⟩ := h.removed _ hremoved
      rw [List.getElem?_eq_none (Nat.le_refl _)] at hlink
      cases hlink
    have hcached := (h.snoc peer .Watched).insert (snoc_link.mpr (Or.inr ⟨rfl, rfl⟩)) hremoved nofun nofun
    rw [hjoined]
    exact hcached

theorem Sane.closeConnection (h : shared.Sane) (peer : EndpointId) :
    (shared.closeConnection peer).2.Sane := by
  unfold IrohShared.closeConnection
  split
  · rename_i c hcached
    obtain ⟨-, link, hlink, hpeer, haccepted, -⟩ := h.cached peer c hcached
    refine ⟨fun peer' o hcached' => ?_, fun o ho => ?_, h.locally⟩
    · obtain ⟨hremoved, link', hlink', hpeer', hlinked⟩ := (h.erase peer).cached peer' o hcached'
      refine ⟨fun ho => ?_, link', hlink', hpeer', hlinked⟩
      rcases List.mem_cons.mp ho with rfl | ho
      · cases hlink.symm.trans hlink'
        cases hpeer.symm.trans hpeer'
        simp at hcached'
      · exact hremoved ho
    · rcases List.mem_cons.mp ho with rfl | ho
      · exact ⟨link, hlink, haccepted⟩
      · exact h.removed o ho
  · exact h

theorem Sane.hungUp (h : shared.Sane) (c : ConnId) : (shared.hungUp c).Sane := by
  unfold IrohShared.hungUp
  split
  · rename_i hremoved
    have hless : Sane { shared with removed := shared.removed.erase c } :=
      ⟨fun peer o hcached => ⟨fun ho => (h.cached peer o hcached).1 (List.mem_of_mem_erase ho),
        (h.cached peer o hcached).2⟩, fun o ho => h.removed o (List.mem_of_mem_erase ho), h.locally⟩
    refine hless.change c (·.close .LocallyClosed) (by simp) (by simp) fun link hlink _ => ?_
    obtain ⟨link', hlink', haccepted⟩ := h.removed c hremoved
    cases hlink.symm.trans hlink'
    exact ⟨by simpa using haccepted, Or.inr fun peer hcached => (h.cached peer c hcached).1 hremoved⟩
  · exact h

theorem Sane.peerCloses (h : shared.Sane) (c : ConnId) (cause : PeerClose) :
    (shared.close c (.ByPeer cause)).Sane := by
  refine h.change c (·.close (.ByPeer cause)) (by simp) (by simp) fun link hlink hreason => ?_
  have hbefore : link.reason = some .LocallyClosed := by
    rw [close_reason, Option.some.injEq] at hreason
    cases hlinked : link.reason with
    | none =>
      rw [hlinked] at hreason
      cases hreason
    | some reason =>
      rw [hlinked] at hreason
      exact congrArg some hreason
  exact ⟨by simpa using h.locally c link hlink hbefore, Or.inl hbefore⟩

theorem Sane.watches (h : shared.Sane) {c : ConnId} {ran : Option EndpointId × IrohShared}
    (hran : Watches shared c ran) : ran.2.Sane := by
  rcases hran with _ | ⟨link, hlink, hstage, reason, hreason, reported, -, connections, hconnections,
    deathWatchers⟩
  · exact h
  · have hended := h.change c (fun link => { link with stage := .Done }) (fun _ => rfl) (by simp)
      fun _ _ hreason => ⟨by simp, Or.inl hreason⟩
    rcases hconnections with rfl | ⟨-, rfl⟩
    · exact ⟨hended.cached, hended.removed, hended.locally⟩
    · have herased := hended.erase link.remote
      exact ⟨herased.cached, herased.removed, herased.locally⟩

theorem Sane.act (h : shared.Sane) (a : Act) : (shared.act a).Sane := by
  cases a with
  | AddPeer peer => exact ⟨h.cached, h.removed, h.locally⟩
  | DeathWatch => exact ⟨h.cached, h.removed, h.locally⟩
  | Established remote => exact h.snoc remote .Accepted
  | Accepted c => exact h.accepted c
  | ConnectionTo peer forceFresh dialed => exact h.connectionTo peer forceFresh dialed
  | CloseConnection peer => exact h.closeConnection peer
  | HungUp c => exact h.hungUp c
  | PeerCloses c cause => exact h.peerCloses c cause
  | WatchConnection c => exact h.watches (shared.watchConnection_watches c)

/-! ## What a step exposes -/

section

variable {shared' : IrohShared} {peer : EndpointId} {c o : ConnId} {link : Link}

theorem mem_select_change {change : Link → Link} (h : shared'.links = shared.links.modify c change)
    {p : Link → Bool} : o ∈ shared'.select p ↔ ∃ link, shared.links[o]? = some link ∧
      p (if c = o then change link else link) = true := by
  rw [mem_select, h]
  constructor
  · rintro ⟨link, hlink, hp⟩
    obtain ⟨link₀, hlink₀, rfl⟩ := modify_link.mp hlink
    exact ⟨link₀, hlink₀, hp⟩
  · rintro ⟨link, hlink, hp⟩
    exact ⟨_, modify_link.mpr ⟨link, hlink, rfl⟩, hp⟩

theorem mem_held_snoc {remote : EndpointId} {stage : Stage}
    (h : shared'.links = shared.links ++ [⟨remote, none, stage⟩]) :
    o ∈ shared'.held peer ↔ o ∈ shared.held peer ∨ o = shared.links.length ∧ remote = peer := by
  simp only [mem_held, h, snoc_link]
  constructor
  · rintro ⟨link, hlink | ⟨ho, rfl⟩, hpeer, hopen⟩
    · exact Or.inl ⟨link, hlink, hpeer, hopen⟩
    · exact Or.inr ⟨ho, hpeer⟩
  · rintro (⟨link, hlink, hpeer, hopen⟩ | ⟨ho, hpeer⟩)
    · exact ⟨link, Or.inl hlink, hpeer, hopen⟩
    · exact ⟨_, Or.inr ⟨ho, rfl⟩, hpeer, rfl⟩

theorem mem_stale_snoc {remote : EndpointId} {stage : Stage}
    (h : shared'.links = shared.links ++ [⟨remote, none, stage⟩]) :
    o ∈ shared'.stale peer ↔ o ∈ shared.stale peer := by
  simp only [mem_stale, h, snoc_link]
  constructor
  · rintro ⟨link, hlink | ⟨ho, rfl⟩, hpeer, hstage, cause, hreason⟩
    · exact ⟨link, hlink, hpeer, hstage, cause, hreason⟩
    · cases hreason
  · rintro ⟨link, hlink, hstale⟩
    exact ⟨link, Or.inl hlink, hstale⟩

theorem mem_held_stage {stage : Stage}
    (h : shared'.links = shared.links.modify c fun link => { link with stage }) :
    o ∈ shared'.held peer ↔ o ∈ shared.held peer := by
  rw [held, held, mem_select_change h, mem_select]
  refine exists_congr fun link => and_congr_right fun _ => ?_
  split <;> rfl

theorem mem_held_close {reason : ConnectionError}
    (h : shared'.links = shared.links.modify c (·.close reason)) :
    o ∈ shared'.held peer ↔ o ∈ shared.held peer ∧ o ≠ c := by
  rw [held, held, mem_select_change h, mem_select]
  constructor
  · rintro ⟨link, hlink, hheld⟩
    split at hheld
    · simp [close_reason] at hheld
    · rename_i hne
      exact ⟨⟨link, hlink, hheld⟩, Ne.symm hne⟩
  · rintro ⟨⟨link, hlink, hheld⟩, hne⟩
    exact ⟨link, hlink, by rwa [if_neg (Ne.symm hne)]⟩

theorem mem_stale_change {change : Link → Link} (h : shared'.links = shared.links.modify c change)
    (hlink : shared.links[c]? = some link) (hbefore : link.stale peer = false) :
    o ∈ shared'.stale peer ↔ o ∈ shared.stale peer ∨ o = c ∧ (change link).stale peer = true := by
  rw [stale, stale, mem_select_change h, mem_select]
  constructor
  · rintro ⟨link', hlink', hstale⟩
    split at hstale
    · rename_i hc
      subst hc
      cases hlink.symm.trans hlink'
      exact Or.inr ⟨rfl, hstale⟩
    · exact Or.inl ⟨link', hlink', hstale⟩
  · rintro (⟨link', hlink', hstale⟩ | ⟨rfl, hstale⟩)
    · refine ⟨link', hlink', ?_⟩
      split
      · rename_i hc
        subst hc
        cases hlink.symm.trans hlink'
        cases hbefore.symm.trans hstale
      · exact hstale
    · exact ⟨link, hlink, by rwa [if_pos rfl]⟩

theorem mem_stale_watched (hlink : shared.links[c]? = some link) (haccepted : link.stage = .Accepted)
    (h : shared'.links = shared.links.modify c fun link => { link with stage := .Watched }) :
    o ∈ shared'.stale peer ↔ o ∈ shared.stale peer ∨
      o = c ∧ link.remote = peer ∧ link.reason.any (· ≠ .LocallyClosed) = true := by
  rw [mem_stale_change h hlink (by simp [Link.stale, haccepted])]
  simp [Link.stale]

theorem mem_stale_closed (hlink : shared.links[c]? = some link) (hopen : link.reason = none)
    {cause : PeerClose} (h : shared'.links = shared.links.modify c (·.close (.ByPeer cause))) :
    o ∈ shared'.stale peer ↔ o ∈ shared.stale peer ∨
      o = c ∧ link.remote = peer ∧ link.stage = .Watched := by
  rw [mem_stale_change h hlink (by simp [Link.stale, hopen])]
  simp [Link.stale, close_reason, hopen]

theorem mem_stale_done (h : shared'.links = shared.links.modify c fun link => { link with stage := .Done })
    (ho : o ∈ shared'.stale peer) : o ∈ shared.stale peer ∧ o ≠ c := by
  rw [stale, mem_select_change h] at ho
  obtain ⟨link, hlink, hstale⟩ := ho
  split at hstale
  · simp [Link.stale] at hstale
  · rename_i hne
    exact ⟨mem_select.mpr ⟨link, hlink, hstale⟩, Ne.symm hne⟩

theorem mem_stale_hungUp (h : shared'.links = shared.links.modify c (·.close .LocallyClosed))
    (ho : o ∈ shared'.stale peer) : o ∈ shared.stale peer := by
  rw [stale, mem_select_change h] at ho
  obtain ⟨link, hlink, hstale⟩ := ho
  refine mem_select.mpr ⟨link, hlink, ?_⟩
  split at hstale
  · simp only [Link.stale, close_remote, close_stage, close_reason] at hstale ⊢
    cases hreason : link.reason <;> simp_all
  · exact hstale

end

/-! ## What a step does to soundness -/

theorem sound_established (h : shared.Sound) (remote : EndpointId) :
    (shared.established remote).Sound ↔ (shared.exposed remote).isEmpty = true := by
  have hexposed (peer : EndpointId) (c : ConnId) :
      c ∈ (shared.established remote).exposed peer ↔ c ∈ shared.exposed peer := by
    rw [mem_exposed, mem_exposed, mem_stale_snoc rfl]
    rfl
  rw [List.isEmpty_iff, List.eq_nil_iff_forall_not_mem]
  constructor
  · intro hsound c hc
    exact hsound remote c ((hexposed remote c).mpr hc) shared.links.length
      ((mem_held_snoc rfl).mpr (Or.inr ⟨rfl, rfl⟩))
  · intro hnone peer c hc o ho
    rw [hexposed] at hc
    rcases (mem_held_snoc rfl).mp ho with ho | ⟨-, rfl⟩
    · exact h peer c hc o ho
    · exact hnone c hc

/-- The lock is the accepted connection's: it is cached and watched. -/
def kept (shared : IrohShared) (remote : EndpointId) (c : ConnId) : IrohShared :=
  { shared with connections := shared.connections.insert remote c }.watched c

theorem sound_kept (hsane : shared.Sane) (h : shared.Sound) {c : ConnId} {link : Link}
    (hlink : shared.links[c]? = some link) (hstage : link.stage = .Accepted) :
    (shared.kept link.remote c).Sound ↔ link.reason = none ∨ ∀ o, o ∉ shared.held link.remote := by
  have hheld (peer : EndpointId) (o : ConnId) :
      o ∈ (shared.kept link.remote c).held peer ↔ o ∈ shared.held peer := mem_held_stage rfl
  have hstale (peer : EndpointId) (o : ConnId) : o ∈ (shared.kept link.remote c).stale peer ↔
      o ∈ shared.stale peer ∨ o = c ∧ link.remote = peer ∧ link.reason.any (· ≠ .LocallyClosed) = true :=
    mem_stale_watched hlink hstage rfl
  have hcached : (shared.kept link.remote c).connections.lookup link.remote = some c :=
    AList.lookup_insert _
  constructor
  · intro hsound
    cases hreason : link.reason with
    | none => exact Or.inl rfl
    | some reason =>
      have hpeer : reason ≠ .LocallyClosed := by
        rintro rfl
        exact hsane.locally c link hlink hreason hstage
      have hexposed : c ∈ (shared.kept link.remote c).exposed link.remote :=
        mem_exposed.mpr ⟨(hstale _ c).mpr (Or.inr ⟨rfl, rfl, by simpa [hreason] using hpeer⟩),
          Or.inr hcached⟩
      exact Or.inr fun o ho => hsound _ c hexposed o ((hheld _ o).mpr ho)
  · intro hok peer o ho other hother
    rw [hheld] at hother
    rw [mem_exposed, hstale] at ho
    by_cases hpeer : peer = link.remote
    · subst hpeer
      -- The cache names `c` now, and `c` was not watched before.
      rw [hcached] at ho
      obtain ⟨hbefore | ⟨-, -, hreason⟩, hnamed⟩ := ho
      · rcases hnamed with hnamed | hnamed
        · cases hnamed
        · cases hnamed
          obtain ⟨link', hlink', -, hwatched, -⟩ := mem_stale.mp hbefore
          cases hlink.symm.trans hlink'
          rw [hstage] at hwatched
          cases hwatched
      · rcases hok with hopen | hnone
        · rw [hopen] at hreason
          cases hreason
        · exact hnone other hother
    · obtain ⟨hbefore | ⟨-, hremote, -⟩, hnamed⟩ := ho
      · have hsame : (shared.kept link.remote c).connections.lookup peer = shared.connections.lookup peer :=
          AList.lookup_insert_ne hpeer
        rw [hsame] at hnamed
        exact h peer o (mem_exposed.mpr ⟨hbefore, hnamed⟩) other hother
      · exact hpeer hremote.symm

theorem sound_accepted (hsane : shared.Sane) (h : shared.Sound) (c : ConnId) :
    (shared.accepted c).Sound ↔ shared.orderly (.Accepted c) = true := by
  simp only [orderly]
  cases hlink : shared.links[c]? with
  | none => simpa [accepted, hlink] using h
  | some link =>
    by_cases hstage : link.stage = .Accepted
    · have hkept := sound_kept hsane h hlink hstage
      simpa [accepted, hlink, hstage, kept, List.eq_nil_iff_forall_not_mem] using hkept
    · simpa [accepted, hlink, hstage] using h

theorem Sound.joined (h : shared.Sound) (peer : EndpointId) : (shared.joined peer).Sound := by
  intro peer' c hc o ho
  rw [mem_exposed, mem_stale_snoc rfl] at hc
  by_cases hpeer : peer' = peer
  · subst hpeer
    have hcached : (shared.joined peer').connections.lookup peer' = some shared.links.length :=
      AList.lookup_insert _
    rw [hcached] at hc
    obtain ⟨hstale, hnamed | hnamed⟩ := hc
    · cases hnamed
    · cases hnamed
      obtain ⟨link, hlink, -⟩ := mem_stale.mp hstale
      rw [List.getElem?_eq_none (Nat.le_refl _)] at hlink
      cases hlink
  · have hsame : (shared.joined peer).connections.lookup peer' = shared.connections.lookup peer' :=
      AList.lookup_insert_ne hpeer
    rw [hsame] at hc
    rcases (mem_held_snoc rfl).mp ho with ho | ⟨-, hremote⟩
    · exact h peer' c (mem_exposed.mpr hc) o ho
    · exact hpeer hremote.symm

theorem sound_closeConnection (h : shared.Sound) (peer : EndpointId) :
    (shared.closeConnection peer).2.Sound ↔ shared.orderly (.CloseConnection peer) = true := by
  simp only [orderly, Bool.or_eq_true, List.isEmpty_iff, List.eq_nil_iff_forall_not_mem]
  unfold closeConnection
  cases hcached : shared.connections.lookup peer with
  | none =>
    refine ⟨fun _ => ?_, fun _ => h⟩
    by_cases hnone : ∀ c, c ∉ shared.stale peer
    · exact Or.inr hnone
    · obtain ⟨c, hc⟩ := not_forall_not.mp hnone
      exact Or.inl (h peer c (mem_exposed.mpr ⟨hc, Or.inl hcached⟩))
  | some c =>
    constructor
    · intro hsound
      by_cases hnone : ∀ c, c ∉ shared.stale peer
      · exact Or.inr hnone
      · obtain ⟨o, ho⟩ := not_forall_not.mp hnone
        exact Or.inl (hsound peer o (mem_exposed.mpr ⟨ho, Or.inl (AList.lookup_erase _ _)⟩))
    · intro hok peer' o ho other hother
      obtain ⟨hstale, hnamed⟩ := mem_exposed.mp ho
      by_cases hpeer : peer' = peer
      · subst hpeer
        rcases hok with hheld | hnone
        · exact hheld other hother
        · exact hnone o hstale
      · rw [AList.lookup_erase_ne hpeer] at hnamed
        exact h peer' o (mem_exposed.mpr ⟨hstale, hnamed⟩) other hother

theorem Sound.hungUp (h : shared.Sound) (c : ConnId) : (shared.hungUp c).Sound := by
  unfold IrohShared.hungUp
  split
  · intro peer o ho other hother
    obtain ⟨hstale, hnamed⟩ := mem_exposed.mp ho
    have hbefore : o ∈ shared.exposed peer := mem_exposed.mpr ⟨mem_stale_hungUp rfl hstale, hnamed⟩
    exact h peer o hbefore other ((mem_held_close rfl).mp hother).1
  · exact h

theorem close_closed {c : ConnId} (h : ∀ link, shared.links[c]? = some link → link.reason ≠ none)
    (reason : ConnectionError) : shared.close c reason = shared := by
  have hlinks : shared.links.modify c (·.close reason) = shared.links := by
    refine List.ext_getElem? fun o => ?_
    rw [List.getElem?_modify]
    cases hlink : shared.links[o]? with
    | none => rfl
    | some link =>
      by_cases ho : c = o
      · subst ho
        obtain ⟨reason', hreason⟩ := Option.ne_none_iff_exists'.mp (h link hlink)
        simp [Link.close, hreason]
      · simp [ho]
  simp [close, hlinks]

theorem mem_held_erase {peer : EndpointId} {c o : ConnId} :
    o ∈ (shared.held peer).erase c ↔ o ≠ c ∧ o ∈ shared.held peer :=
  List.Nodup.mem_erase_iff (List.nodup_range.filter _)

theorem sound_closed (h : shared.Sound) {c : ConnId} {link : Link}
    (hlink : shared.links[c]? = some link) (hopen : link.reason = none) (cause : PeerClose) :
    (shared.close c (.ByPeer cause)).Sound ↔ link.stage ≠ .Watched ∨
      (∀ o, o ∉ (shared.held link.remote).erase c) ∨
        ∃ cached, shared.connections.lookup link.remote = some cached ∧ cached ≠ c := by
  have hheld (peer : EndpointId) (o : ConnId) :
      o ∈ (shared.close c (.ByPeer cause)).held peer ↔ o ∈ shared.held peer ∧ o ≠ c :=
    mem_held_close rfl
  have hstale (peer : EndpointId) (o : ConnId) : o ∈ (shared.close c (.ByPeer cause)).stale peer ↔
      o ∈ shared.stale peer ∨ o = c ∧ link.remote = peer ∧ link.stage = .Watched :=
    mem_stale_closed hlink hopen rfl
  constructor
  · intro hsound
    by_cases hstage : link.stage = .Watched
    · refine Or.inr (or_iff_not_imp_right.mpr fun hcached o ho => ?_)
      have hnamed : shared.connections.lookup link.remote = none ∨
          shared.connections.lookup link.remote = some c := by
        cases hlookup : shared.connections.lookup link.remote with
        | none => exact Or.inl rfl
        | some cached =>
          by_cases hc : cached = c
          · exact Or.inr (congrArg some hc)
          · exact absurd ⟨cached, hlookup, hc⟩ hcached
      have hexposed : c ∈ (shared.close c (.ByPeer cause)).exposed link.remote :=
        mem_exposed.mpr ⟨(hstale _ c).mpr (Or.inr ⟨rfl, rfl, hstage⟩), hnamed⟩
      obtain ⟨hne, ho⟩ := mem_held_erase.mp ho
      exact hsound _ c hexposed o ((hheld _ o).mpr ⟨ho, hne⟩)
    · exact Or.inl hstage
  · intro hok peer o ho other hother
    obtain ⟨hbefore', hne⟩ := (hheld peer other).mp hother
    obtain ⟨hclosed, hnamed⟩ := mem_exposed.mp ho
    rcases (hstale peer o).mp hclosed with hbefore | ⟨rfl, rfl, hwatched⟩
    · exact h peer o (mem_exposed.mpr ⟨hbefore, hnamed⟩) other hbefore'
    · rcases hok with hunwatched | hlast | ⟨cached, hlookup, hdiffers⟩
      · exact hunwatched hwatched
      · exact hlast other (mem_held_erase.mpr ⟨hne, hbefore'⟩)
      · have hlookup' : (shared.close o (.ByPeer cause)).connections.lookup link.remote = some cached :=
          hlookup
        rw [hlookup'] at hnamed
        rcases hnamed with hnamed | hnamed
        · cases hnamed
        · exact hdiffers (Option.some.inj hnamed)

theorem sound_peerCloses (h : shared.Sound) (c : ConnId) (cause : PeerClose) :
    (shared.close c (.ByPeer cause)).Sound ↔ shared.orderly (.PeerCloses c cause) = true := by
  simp only [orderly]
  cases hlink : shared.links[c]? with
  | none =>
    rw [close_closed (by simp [hlink])]
    simpa using h
  | some link =>
    cases hreason : link.reason with
    | some reason =>
      rw [close_closed (by simp [hlink, hreason])]
      simpa [hreason] using h
    | none =>
      rw [sound_closed h hlink hreason]
      simp [hreason, List.eq_nil_iff_forall_not_mem, or_assoc, Option.any_eq_true]

theorem Sound.watches (hsane : shared.Sane) (h : shared.Sound) {c : ConnId}
    {ran : Option EndpointId × IrohShared} (hran : Watches shared c ran) : ran.2.Sound := by
  rcases hran with _ | ⟨link, hlink, hstage, reason, hreason, reported, -, connections, hconnections,
    deathWatchers⟩
  · exact h
  · intro peer o ho other hother
    have hother' : other ∈ shared.held peer := (mem_held_stage rfl).mp hother
    obtain ⟨hstale, hnamed⟩ := mem_exposed.mp ho
    have hbefore : o ∈ shared.stale peer := (mem_stale_done rfl hstale).1
    rcases hconnections with rfl | ⟨hcached, rfl⟩
    · exact h peer o (mem_exposed.mpr ⟨hbefore, hnamed⟩) other hother'
    · by_cases hpeer : peer = link.remote
      · subst hpeer
        -- The watcher evicts its own connection, and reports it: then no other one is open.
        obtain ⟨-, link', hlink', -, -, hlocal⟩ := hsane.cached _ c hcached
        cases hlink.symm.trans hlink'
        cases reason with
        | LocallyClosed => exact hlocal hreason
        | ByPeer cause =>
          have hexposed : c ∈ shared.exposed link.remote :=
            mem_exposed.mpr ⟨mem_stale.mpr ⟨link, hlink, rfl, hstage, cause, hreason⟩, Or.inr hcached⟩
          exact h _ c hexposed other hother'
      · rw [AList.lookup_erase_ne hpeer] at hnamed
        exact h peer o (mem_exposed.mpr ⟨hbefore, hnamed⟩) other hother'

/-- A step keeps the watchers right exactly when it is orderly. -/
theorem sound_act (hsane : shared.Sane) (h : shared.Sound) (a : Act) :
    (shared.act a).Sound ↔ shared.orderly a = true := by
  cases a with
  | AddPeer peer => exact iff_of_true h rfl
  | DeathWatch => exact iff_of_true h rfl
  | Established remote => exact sound_established h remote
  | Accepted c => exact sound_accepted hsane h c
  | ConnectionTo peer forceFresh dialed =>
    refine iff_of_true ?_ rfl
    change (shared.connectionTo peer forceFresh dialed).2.Sound
    rcases shared.connectionTo_cases peer forceFresh dialed with hsame | hjoined
    · rwa [hsame]
    · rw [hjoined]
      exact h.joined peer
  | CloseConnection peer => exact sound_closeConnection h peer
  | HungUp c => exact iff_of_true (h.hungUp c) rfl
  | PeerCloses c cause => exact sound_peerCloses h c cause
  | WatchConnection c => exact iff_of_true (h.watches hsane (shared.watchConnection_watches c)) rfl

theorem sane_new : new.Sane := by
  refine ⟨fun peer c hcached => ?_, nofun, fun c link hlink => ?_⟩
  · simp [new] at hcached
  · simp [new] at hlink

theorem sound_new : new.Sound := by
  intro peer c hc
  obtain ⟨link, hlink, -⟩ := mem_stale.mp (mem_exposed.mp hc).1
  simp [new] at hlink

/-- In whatever order connections come and go, a watcher that runs reports a peer only when none of its
connections is open, exactly as long as every step is orderly. This is about every watcher that could run in
a state that the run reaches, whether it runs there or not: a run that is spared a wrong report because the
watcher comes late, when the peer's other connections are closed, is not orderly either. -/
theorem reports_sound (acts : List Act) :
    (∀ start, start <+: acts → ∀ c peer,
        ((new.after start).watchConnection c).1 = some peer → (new.after start).held peer = []) ↔
      Run.Along act (fun shared a => shared.orderly a = true) new acts := by
  have hruns := Run.along_iff act (I := Sane) (P := Sound) (fun _ a h => h.act a)
    (fun _ a hsane h => sound_act hsane h a) new acts sane_new sound_new
  simp only [sound_iff] at hruns
  exact hruns

/-- Both sides dial: the peer's connection waits for the lock over this side's dial, and then replaces
the newer one in the cache. -/
def bothDial (peer : EndpointId) : List Act :=
  [.DeathWatch, .AddPeer peer, .Established peer, .ConnectionTo peer false (.ok ()), .Accepted 0]

theorem reports_connected :
    let shared := new.after (bothDial Sample.bob.endpoint ++ [.PeerCloses 0 .ApplicationClosed])
    (shared.watchConnection 0).1 = some Sample.bob.endpoint ∧
      (shared.watchConnection 0).2.deathWatchers.map (·.queue) = [[Sample.bob.endpoint]] ∧
      shared.held Sample.bob.endpoint = [1] := by
  decide +kernel

end Kamiroh.Iroh.IrohShared
