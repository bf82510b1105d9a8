import Kamiroh.Phone.Receipts
import Kamiroh.Runtime.Deadlines
import Kamiroh.Runtime.Polls

/-!
# Every exchange ends

A party that asks back only so often keeps an exchange going only so long. What the app, the runtime and
the pump still have to do is paid for by the questions that the party has left and by those that the app
opens with.
-/

namespace Kamiroh

open TurnState

/-! ## Parties that run out of questions -/

/-- How many requests a turn carries, one or none. -/
def Turn.asks (turn : Turn) : Nat := turn.request.toList.length

/-- How many questions the party asks `peer` in answer to its turns. -/
def questions {P : Type} [Party P] (peer : Address) (party : P) (turns : List Turn) : Nat :=
  Run.cost (fun party turn => (Party.onTurn party peer turn).1)
    (fun party turn => (Party.onTurn party peer turn).2.elim 0 Turn.asks) party turns

/-- Whatever `peer` says, the party asks it no more than `n` questions. -/
def RunsOut {P : Type} [Party P] (peer : Address) (party : P) (n : Nat) : Prop :=
  ∀ turns, questions peer party turns ≤ n

theorem RunsOut.next {P : Type} [Party P] {peer : Address} {party : P} {n : Nat} (h : RunsOut peer party n)
    (turn : Turn) : ∃ n', RunsOut peer (Party.onTurn party peer turn).1 n' ∧
      (Party.onTurn party peer turn).2.elim 0 Turn.asks + n' ≤ n := by
  have hturn : (Party.onTurn party peer turn).2.elim 0 Turn.asks ≤ n := h [turn]
  refine ⟨n - (Party.onTurn party peer turn).2.elim 0 Turn.asks, fun turns => ?_, by omega⟩
  have hturns : (Party.onTurn party peer turn).2.elim 0 Turn.asks +
      questions peer (Party.onTurn party peer turn).1 turns ≤ n := h (turn :: turns)
  omega

theorem RunsOut.app {P : Type} [Party P] {peer : Address} {party : P} {n : Nat} (h : RunsOut peer party n) :
    RunsOut peer (Boxed.app party) n := by
  intro turns
  have hsame : questions peer (Boxed.app party) turns = questions peer party turns := by
    induction turns generalizing party n with
    | nil => rfl
    | cons turn turns ih =>
      obtain ⟨n', hnext, -⟩ := h.next turn
      exact congrArg ((Party.onTurn party peer turn).2.elim 0 Turn.asks + ·) (ih hnext)
  rw [hsame]
  exact h turns

theorem runsOut_of_left {P : Type} [Party P] {peer : Address} (left : P → Nat)
    (hpays : ∀ party turn, (Party.onTurn party peer turn).2.elim 0 Turn.asks +
      left (Party.onTurn party peer turn).1 ≤ left party) (party : P) : RunsOut peer party (left party) := by
  intro turns
  induction turns generalizing party with
  | nil => exact Nat.zero_le _
  | cons turn turns ih =>
    have hturn := hpays party turn
    have hrest := ih (Party.onTurn party peer turn).1
    simp only [questions, Run.cost] at hrest ⊢
    omega

theorem EchoParty.runsOut (peer : Address) (party : EchoParty) : RunsOut peer party 0 := by
  refine runsOut_of_left (fun _ => 0) (fun party turn => ?_) party
  change (party.onTurn peer turn).2.elim 0 Turn.asks + 0 ≤ 0
  unfold onTurn
  dsimp only
  split
  · exact Nat.le_refl _
  · split <;> exact Nat.le_refl _

theorem CountdownParty.runsOut (peer : Address) (party : CountdownParty) :
    RunsOut peer party (party.peer peer).remaining.toNat := by
  refine runsOut_of_left (fun party => (party.peer peer).remaining.toNat) (fun party turn => ?_) party
  change (party.onTurn peer turn).2.elim 0 Turn.asks + ((party.onTurn peer turn).1.peer peer).remaining.toNat ≤
    (party.peer peer).remaining.toNat
  unfold onTurn
  dsimp only
  split
  · rw [peer_insert]
    exact Nat.le_of_eq (Nat.zero_add _)
  · split
    · rw [peer_insert]
      exact Nat.le_of_eq (Nat.zero_add _)
    · split
      · rename_i hremaining
        rw [peer_insert]
        have hpos : 0 < (party.peer peer).remaining.toNat := UInt8.lt_iff_toNat_lt.mp hremaining
        have hone : (1 : UInt8) ≤ (party.peer peer).remaining := UInt8.le_iff_toNat_le.mpr hpos
        have hcount := UInt8.toNat_sub_of_le _ _ hone
        change 1 + ((party.peer peer).remaining - 1).toNat ≤ (party.peer peer).remaining.toNat
        rw [hcount]
        exact Nat.le_of_eq (Nat.add_sub_cancel' hpos)
      · rw [peer_insert]
        exact Nat.le_of_eq (Nat.zero_add _)

/-! ## A step on a turn -/

theorem Wired.unique {net : Shared} {a b : Address} {toA toA' toB toB' : List Message}
    (h : Wired net a b toA toB) (h' : Wired net a b toA' toB') : toA = toA' ∧ toB = toB' := by
  have hinjective (c d : Address) : Function.Injective fun message : Message => (⟨c, d, message⟩ : Delivery) :=
    fun _ _ heq => congrArg Delivery.message heq
  exact ⟨List.map_injective_iff.mpr (hinjective b a) (Option.some.inj (h.left.symm.trans h'.left)),
    List.map_injective_iff.mpr (hinjective a b) (Option.some.inj (h.right.symm.trans h'.right))⟩

section

variable {P : Type} [Party P] {I : Boxed P → TurnState → Prop} {actor : LocalActor P MemoryInbox}
  {app peer : Address} {turn : Turn} {rest : List Message}

theorem takeTurn_party (rt : LocalRuntime P Shared MemoryInbox) (name : ActorName) (hkeeps : Keeps app I)
    (hne : app ≠ peer) {party : Boxed P} (hparty : actor.party = some party)
    (hI : I party (actor.peer app).state)
    (hwired : Wired rt.net app peer [] rest) (hlegal : ((actor.peer app).state.onIncoming turn).1.isOk = true) :
    ∃ net' actor', (rt.takeTurn name actor peer app turn
        (turn.request.map fun request => .Ack ⟨request.id⟩)).rt = { rt with net := net' }.setActor name actor' ∧
      actor'.party = some (Party.onTurn party app turn).1 ∧
      (turn.request = none ∧ (Party.onTurn party app turn).2 = none ∧ Wired net' app peer [] rest ∨
        ∃ r reply, turn.request = some r ∧ (Party.onTurn party app turn).2 = some reply ∧
          Wired net' app peer [.Ack ⟨r.id⟩, .Turn reply] rest) := by
  obtain ⟨progress, hlegal⟩ := isOk_iff.mp hlegal
  cases hrequest : turn.request with
  | none =>
    obtain ⟨hnone, -⟩ := hkeeps.silent hI hlegal hrequest
    rw [Option.map_none, takeTurn_silent hlegal hparty hnone]
    exact ⟨rt.net, _, rfl, rfl, Or.inl ⟨rfl, hnone, hwired⟩⟩
  | some r =>
    obtain ⟨reply, progress', hreply, hout, -⟩ := hkeeps.answers hI hlegal hrequest
    rw [onIncoming_state _ _ _ hlegal] at hout
    obtain ⟨net₁, hack, hwired₁⟩ := hwired.symm.send hne.symm (.Ack ⟨r.id⟩)
    obtain ⟨net₂, hsend, hwired₂⟩ := hwired₁.send hne.symm (.Turn reply)
    rw [Option.map_some, takeTurn_answered hlegal hparty hreply hout hack hsend]
    exact ⟨net₂, _, rfl, rfl, Or.inr ⟨r, reply, rfl, hreply, hwired₂.symm⟩⟩

end

/-! ## Waits of an idle side -/

theorem PeerState.Waiting.idle {ps : PeerState} (h : ps.Waiting) (hidle : ps.state = .Idle) : ps = default := by
  obtain ⟨state, ackDue, turnDue⟩ := ps
  cases hidle
  cases ackDue with
  | some due => cases h.ack due.1 due.2 rfl
  | none =>
    cases turnDue with
    | some due =>
      obtain ⟨id, hawaits⟩ := h.turn due rfl
      cases hawaits
    | none => rfl

theorem Phone.Mirrors.held_waiting {phone : Phone} (h : phone.Mirrors) : phone.held.Waiting :=
  ⟨h.ack, fun _ hdue => h.turn.mp (Option.isSome_of_eq_some hdue)⟩

/-! ## What is still to be done -/

namespace TurnState

def owing : TurnState → Nat
  | OweThem _ => 1
  | _ => 0

def awaiting : TurnState → Nat
  | AwaitingTheirTurn _ => 1
  | _ => 0

theorem awaiting_afterTurn (turn : Turn) : (afterTurn .AwaitingTheirTurn turn).awaiting = turn.asks := by
  cases turn <;> rfl

end TurnState

namespace Stage

variable {s t : TurnState} {due : Option RequestId} {turns : List Turn} {toApp : List Message}

theorem owing (h : Stage s due t turns toApp) :
    s.owing = if turns = [] ∧ toApp = [] then t.awaiting else 0 := by
  cases h <;> simp [TurnState.owing, TurnState.awaiting]

theorem owing_read {message : Message} (h : Stage s due t turns (message :: toApp)) :
    (if turns = [] ∧ toApp = [] then t.awaiting else 0) ≤ message.turn.elim 0 Turn.asks := by
  cases h with
  | acked x reply hreply => simp
  | answered x reply hreply => simp [awaiting_afterTurn, Message.turn]

end Stage

/-- What a message costs: it is taken, and each request in it costs `each`. -/
def Message.toll (each : Nat) (message : Message) : Nat := 1 + each * message.turn.elim 0 Turn.asks

namespace Line

/-- A request that the phone sends is read as a receipt and a turn. One that it hears is answered, and
that is a request that it sends, at most. -/
def burden (s : TurnState) (toApp toPeer : List Message) (n : Nat) : Nat :=
  (toApp.map (Message.toll 4)).sum + (toPeer.map (Message.toll 2)).sum + 4 * s.owing + 4 * n

/-- The act does something: a turn is sent, or a message is taken. -/
def work {P : Type} (line : Line P) : Act → Nat
  | .SendTurn turn => if (line.phone.state.onOutgoing turn).1.isOk then 1 else 0
  | .Step _ => if line.queued line.phone.peer = [] then 0 else 1
  | .Read _ => if line.queued line.phone.selfAddress = [] then 0 else 1
  | .Receipt _ | .Elsewhere .. => 0

def Act.opens : Act → Bool
  | .SendTurn (.Open _) => true
  | _ => false

def Act.isReceipt : Act → Bool
  | .Receipt _ => true
  | _ => false

/-- What an act may add to the work that is to be done. -/
def Act.brings (a : Act) : Nat := 4 * a.opens.toNat + a.isReceipt.toNat

section

variable {P : Type} [Party P] {I : Boxed P → TurnState → Prop} {app peer : Address} {line : Line P}
  {actor : LocalActor P MemoryInbox} {toApp toPeer : List Message} {answers : List (Request × Turn)}

/-- The line goes on, and the party has `n` questions left. -/
structure Asking (I : Boxed P → TurnState → Prop) (app peer : Address) (line : Line P)
    (actor : LocalActor P MemoryInbox) (toApp toPeer : List Message) (n : Nat) : Prop where
  going : Going I app peer line actor toApp toPeer
  receipted : ∃ answers, Receipted line toApp toPeer answers
  asking : ∃ party, actor.party = some party ∧ I party (actor.peer app).state ∧ RunsOut app party n

/-- The work that is to be done at most. -/
def Owes (I : Boxed P → TurnState → Prop) (app peer : Address) (line : Line P) (credit : Nat) : Prop :=
  ∃ actor toApp toPeer n, Asking I app peer line actor toApp toPeer n ∧
    credit = burden line.phone.state toApp toPeer n

omit [Party P] in
theorem Going.work_step (h : Going I app peer line actor toApp toPeer) (waker : Waker) :
    line.work (.Step waker) = if toPeer = [] then 0 else 1 := by
  rw [work, h.them, h.queued.2]

omit [Party P] in
theorem Going.work_read (h : Going I app peer line actor toApp toPeer) (waker : Waker) :
    line.work (.Read waker) = if toApp = [] then 0 else 1 := by
  rw [work, h.self, h.queued.1]

theorem Asking.of_holds (h : Asking I app peer line actor toApp toPeer n) {line' : Line P}
    (hholds : Holds I app peer line') {toApp' toPeer' : List Message}
    (hwired : Wired line'.rt.net app peer toApp' toPeer') {actor' : LocalActor P MemoryInbox}
    (hactor : line'.rt.actors peer.name = some actor') {n' : Nat}
    (hparty : ∀ party, actor.party = some party → RunsOut app party n →
      ∃ party', actor'.party = some party' ∧ RunsOut app party' n') :
    Asking I app peer line' actor' toApp' toPeer' n' := by
  obtain ⟨actor'', toApp'', toPeer'', answers, hgoing, hreceipted⟩ := hholds
  obtain ⟨rfl, rfl⟩ := hgoing.wired.unique hwired
  cases hgoing.installed.symm.trans hactor
  obtain ⟨party, hold, -, hleft⟩ := h.asking
  obtain ⟨party', hnew, hleft'⟩ := hparty party hold hleft
  obtain ⟨party'', hnew', hI⟩ := hgoing.party
  cases hnew'.symm.trans hnew
  exact ⟨hgoing, ⟨answers, hreceipted⟩, party', hnew, hI, hleft'⟩

omit [Party P] in
theorem Going.sendTurn_cases (h : Going I app peer line actor toApp toPeer) (turn : Turn) :
    (line.phone.state.onOutgoing turn).1.isOk = false ∧ line.sendTurn turn = line ∨
      (∃ progress, (line.phone.state.onOutgoing turn).1 = .ok progress) ∧
        (line.sendTurn turn).phone.state = afterTurn .AwaitingTheirTurn turn ∧
        (line.sendTurn turn).rt.actors = line.rt.actors ∧
        Wired (line.sendTurn turn).rt.net app peer toApp (toPeer ++ [.Turn turn]) := by
  have hsent := Phone.sendTurn_sent line.phone line.rt.net line.rt.clock turn
  obtain ⟨net, hsend, hwired⟩ := h.wired.send h.apart (.Turn turn)
  rw [← h.self, ← h.them] at hsend
  unfold Line.sendTurn
  generalize line.phone.sendTurn line.rt.net line.rt.clock turn = sent at hsent
  rcases hsent with ⟨error, hout⟩ | ⟨progress, hout, text, net', hrefused⟩ | ⟨progress, hout, net', hok⟩
  · left
    rw [hout]
    exact ⟨rfl, rfl⟩
  · rw [hsend] at hrefused
    cases hrefused
  · cases hsend.symm.trans hok
    exact Or.inr ⟨⟨progress, hout⟩, rfl, rfl, hwired⟩

theorem Asking.sendTurn (h : Asking I app peer line actor toApp toPeer n) (turn : Turn) :
    ∃ credit', Owes I app peer (line.sendTurn turn) credit' ∧
      line.work (.SendTurn turn) + credit' ≤
        burden line.phone.state toApp toPeer n + Act.brings (.SendTurn turn) := by
  rcases h.going.sendTurn_cases turn with ⟨hrefused, hsame⟩ | ⟨⟨progress, hout⟩, hstate, hactors, hwired⟩
  · rw [hsame, work, hrefused]
    exact ⟨_, ⟨actor, toApp, toPeer, n, h, rfl⟩, by simp⟩
  · obtain ⟨answers, hreceipted⟩ := h.receipted
    have hnext : Asking I app peer (line.sendTurn turn) actor toApp (toPeer ++ [.Turn turn]) n :=
      h.of_holds (h.going.sendTurn hreceipted turn) hwired (by rw [hactors, h.going.installed])
        fun party hparty hleft => ⟨party, hparty, hleft⟩
    refine ⟨_, ⟨actor, toApp, _, n, hnext, rfl⟩, ?_⟩
    rw [work, isOk_iff.mpr ⟨progress, hout⟩, hstate]
    simp only [burden, List.map_append, List.map_cons, List.map_nil, List.sum_append, List.sum_cons,
      List.sum_nil, if_true]
    rcases (onOutgoing_ok_iff _ _ _).mp hout with ⟨r, -⟩ | ⟨a, r, howes⟩ | ⟨a, howes⟩
    · simp [Message.toll, Message.turn, Turn.asks, Turn.request, afterTurn, Turn.posed, owing, Act.brings,
        Act.opens, Act.isReceipt]
      omega
    · simp [Message.toll, Message.turn, Turn.asks, Turn.request, afterTurn, Turn.posed, owing, Act.brings,
        Act.opens, Act.isReceipt, howes]
      omega
    · simp [Message.toll, Message.turn, Turn.asks, Turn.request, afterTurn, Turn.posed, owing, Act.brings,
        Act.opens, Act.isReceipt, howes]
      omega

theorem Asking.receipt (h : Asking I app peer line actor toApp toPeer n) (ack : Ack) :
    ∃ credit', Owes I app peer (line.receipt ack) credit' ∧
      line.work (.Receipt ack) + credit' ≤
        burden line.phone.state toApp toPeer n + Act.brings (.Receipt ack) := by
  obtain ⟨answers, hreceipted⟩ := h.receipted
  obtain ⟨net, hsend, hwired⟩ := h.going.wired.send h.going.apart (.Ack ack)
  rw [← h.going.self, ← h.going.them] at hsend
  have hnext : Asking I app peer (line.receipt ack) actor toApp (toPeer ++ [.Ack ack]) n := by
    refine h.of_holds (h.going.receipt hreceipted ack) ?_ ?_ fun party hparty hleft => ⟨party, hparty, hleft⟩
    · unfold Line.receipt
      rw [hsend]
      exact hwired
    · exact h.going.installed
  refine ⟨_, ⟨actor, toApp, _, n, hnext, rfl⟩, ?_⟩
  have hphone : (line.receipt ack).phone = line.phone := rfl
  rw [hphone]
  simp [burden, work, Message.toll, Message.turn, Act.brings, Act.opens, Act.isReceipt]
  omega

theorem Asking.readNext (h : Asking I app peer line actor toApp toPeer n) (waker : Waker) :
    ∃ credit', Owes I app peer (line.readNext waker) credit' ∧
      line.work (.Read waker) + credit' ≤
        burden line.phone.state toApp toPeer n + Act.brings (.Read waker) := by
  obtain ⟨answers, hreceipted⟩ := h.receipted
  obtain ⟨hgoing, hreceipted'⟩ := h.going.readNext hreceipted waker
  refine ⟨_, ⟨actor, toApp.tail, toPeer, n, ⟨hgoing, ⟨answers, hreceipted'⟩, h.asking⟩, rfl⟩, ?_⟩
  rw [h.going.work_read]
  have hbefore := h.going.stage.owing
  have hafter := hgoing.stage.owing
  cases toApp with
  | nil =>
    rw [List.tail_nil] at hafter
    simp [burden, hbefore, hafter]
  | cons message toApp =>
    rw [List.tail_cons] at hafter
    have hread := h.going.stage.owing_read
    rw [← hafter] at hread
    simp only [burden, List.tail_cons, List.map_cons, List.sum_cons, Message.toll, reduceCtorEq, if_false]
    omega

/-- The actor has taken a turn: it costs what it carries, and the party what it asks. -/
theorem Asking.tookTurn {turn : Turn} {rest : List Message} (hkeeps : Keeps app I)
    (h : Asking I app peer line actor toApp (.Turn turn :: rest) n) {line' : Line P}
    (hholds : Holds I app peer line') (hphone : line'.phone = line.phone) {net : Shared}
    (hwired : Wired net app peer toApp rest)
    (hrt : line'.rt =
      (LocalRuntime.deliver { line.rt with net } line.phone.peer.name actor ⟨app, peer, .Turn turn⟩).rt) :
    ∃ credit', Owes I app peer line' credit' ∧
      1 + credit' ≤ burden line.phone.state toApp (.Turn turn :: rest) n := by
  obtain ⟨rfl, hlegal, -⟩ := h.going.stage.taken
  obtain ⟨party, hparty, hI, hleft⟩ := h.asking
  obtain ⟨n', hleft', hspent⟩ := hleft.next turn
  obtain ⟨net', actor', htook, hparty', hreplied⟩ :=
    takeTurn_party (LocalRuntime.heardFrom { line.rt with net } app.endpoint) line.phone.peer.name hkeeps
      h.going.apart hparty hI hwired hlegal
  rw [LocalRuntime.deliver_turn _ _ h.going.admitted] at hrt
  dsimp only at hrt
  rw [htook] at hrt
  have hactor : line'.rt.actors peer.name = some actor' := by
    rw [hrt, h.going.them]
    exact LocalRuntime.setActor_self ..
  have hfound : ∀ party₀, actor.party = some party₀ → RunsOut app party₀ n →
      ∃ party', actor'.party = some party' ∧ RunsOut app party' n' := by
    intro party₀ hparty₀ _
    cases hparty.symm.trans hparty₀
    exact ⟨_, hparty', hleft'⟩
  rcases hreplied with ⟨-, hsilent, hwired'⟩ | ⟨r, reply, hr, hreply, hwired'⟩
  · have hnext := h.of_holds hholds (by rw [hrt]; exact hwired') hactor hfound
    refine ⟨_, ⟨actor', [], rest, n', hnext, rfl⟩, ?_⟩
    rw [hsilent] at hspent
    simp [hphone, burden, Message.toll] at hspent ⊢
    omega
  · have hnext := h.of_holds hholds (by rw [hrt]; exact hwired') hactor hfound
    refine ⟨_, ⟨actor', _, rest, n', hnext, rfl⟩, ?_⟩
    rw [hreply] at hspent
    have hasks : turn.asks = 1 := by simp [Turn.asks, hr]
    simp [hphone, burden, Message.toll, Message.turn, hasks] at hspent ⊢
    omega

theorem Asking.tookAck {ack : Ack} {rest : List Message}
    (h : Asking I app peer line actor toApp (.Ack ack :: rest) n) {line' : Line P}
    (hholds : Holds I app peer line') (hphone : line'.phone = line.phone) {net : Shared}
    (hwired : Wired net app peer toApp rest)
    (hrt : line'.rt =
      (LocalRuntime.deliver { line.rt with net } line.phone.peer.name actor ⟨app, peer, .Ack ack⟩).rt) :
    ∃ credit', Owes I app peer line' credit' ∧
      1 + credit' ≤ burden line.phone.state toApp (.Ack ack :: rest) n := by
  rw [LocalRuntime.deliver_ack _ _ h.going.admitted] at hrt
  dsimp only at hrt
  have hactor : line'.rt.actors peer.name = some { actor with
      conversations := actor.conversations.modify app fun ps => ps.settleAck ack.id } := by
    rw [hrt, h.going.them]
    exact LocalRuntime.setActor_self ..
  have hnext := h.of_holds hholds (by rw [hrt]; exact hwired) hactor
    fun party hparty hleft => ⟨party, hparty, hleft⟩
  refine ⟨_, ⟨_, toApp, rest, n, hnext, rfl⟩, ?_⟩
  simp [hphone, burden, Message.toll, Message.turn]
  omega

theorem Asking.step (hkeeps : Keeps app I) (h : Asking I app peer line actor toApp toPeer n) (waker : Waker)
    (hundisturbed : Undisturbed line (.Step waker)) :
    ∃ credit', Owes I app peer (line.step waker) credit' ∧
      line.work (.Step waker) + credit' ≤
        burden line.phone.state toApp toPeer n + Act.brings (.Step waker) := by
  obtain ⟨answers, hreceipted⟩ := h.receipted
  obtain ⟨actor', toApp', answers', hgoing', hreceipted'⟩ := h.going.step hkeeps hreceipted waker hundisturbed
  have hholds : Holds I app peer (line.step waker) := ⟨actor', toApp', _, answers', hgoing', hreceipted'⟩
  obtain ⟨hdue, hdeaths⟩ := hundisturbed
  have hinstalled : line.rt.actors line.phone.peer.name = some actor := by rw [h.going.them, h.going.installed]
  have hpolled := poll_wired hinstalled (h.going.only.quiet h.going.buried) h.going.box h.going.apart
    h.going.wired (hdue actor hinstalled) hdeaths waker
  have hrt : (line.step waker).rt = (line.rt.poll line.phone.peer.name waker).2.1 := rfl
  rw [h.going.work_step]
  rcases hpolled with ⟨rfl, net, hpoll, hwired⟩ | ⟨message, rest, net, rfl, hwired, hpoll⟩ <;> rw [hpoll] at hrt
  · have hnext := h.of_holds hholds (by rw [hrt]; exact hwired) (by rw [hrt]; exact h.going.installed)
      fun party hparty hleft => ⟨party, hparty, hleft⟩
    exact ⟨_, ⟨actor, toApp, [], n, hnext, rfl⟩, Nat.le_of_eq (Nat.zero_add _)⟩
  · rw [if_neg (List.cons_ne_nil _ _)]
    rcases h.going.talk message List.mem_cons_self with ⟨turn, rfl⟩ | ⟨ack, rfl⟩
    · exact h.tookTurn hkeeps hholds rfl hwired hrt
    · exact h.tookAck hholds rfl hwired hrt

theorem Owes.act (hkeeps : Keeps app I) {credit : Nat} (h : Owes I app peer line credit) (a : Act)
    (hundisturbed : Undisturbed line a) :
    ∃ credit', Owes I app peer (line.act a) credit' ∧ line.work a + credit' ≤ credit + a.brings := by
  obtain ⟨actor, toApp, toPeer, n, h, rfl⟩ := h
  cases a with
  | SendTurn turn => exact h.sendTurn turn
  | Receipt ack => exact h.receipt ack
  | Step waker => exact h.step hkeeps waker hundisturbed
  | Read waker => exact h.readNext waker
  | Elsewhere net clock =>
    obtain ⟨answers, hreceipted⟩ := h.receipted
    have hnext := h.going.elsewhere hundisturbed
    exact ⟨_, ⟨actor, toApp, toPeer, n, ⟨hnext, ⟨answers, { hreceipted with }⟩, h.asking⟩, rfl⟩,
      Nat.le_of_eq (Nat.zero_add _)⟩

/-! ## The waits -/

/-- A wait of the phone or of the actor is armed only while it awaits a turn. -/
structure Timely (line : Line P) : Prop where
  phone : line.phone.Mirrors
  actors : line.rt.Each PeerState.Waiting

theorem Timely.act (h : line.Timely) (a : Act) : (line.act a).Timely := by
  cases a with
  | SendTurn turn =>
    exact ⟨h.phone.sent (Phone.sendTurn_sent line.phone line.rt.net line.rt.clock turn), h.actors⟩
  | Receipt ack => exact ⟨h.phone, h.actors⟩
  | Step waker =>
    refine ⟨h.phone, ?_⟩
    have hcalled := line.rt.moment_called (.Poll line.phone.peer.name waker)
    have hrt : (line.act (.Step waker)).rt = (line.rt.moment (.Poll line.phone.peer.name waker)).1 := rfl
    rw [hrt]
    generalize line.rt.moment (.Poll line.phone.peer.name waker) = moment at hcalled
    rcases hcalled with ⟨net, -⟩ | ⟨net, name, waker', -, waited, -⟩ | ⟨call, -, -⟩
    · exact h.actors
    · have hactors : LocalRuntime.Each { line.rt with net } PeerState.Waiting := h.actors
      exact LocalRuntime.waiting_exec hactors _
    · exact LocalRuntime.waiting_exec h.actors _
  | Read waker =>
    simp only [Line.act, Line.readNext]
    split
    · simp only [Line.dispatch]
      split
      · rename_i ack _
        exact ⟨h.phone.call (N := Shared) (.NoteAck ack), h.actors⟩
      · rename_i turn _ _ _ _
        exact ⟨h.phone.heard (line.phone.onIncoming_heard turn), h.actors⟩
      · exact ⟨h.phone, h.actors⟩
      · exact ⟨h.phone, h.actors⟩
      · exact ⟨h.phone, h.actors⟩
    · exact ⟨h.phone, h.actors⟩
  | Elsewhere net clock => exact ⟨h.phone, h.actors⟩

/-! ## The runs -/

omit [Party P] in
theorem installParty_ok {rt : LocalRuntime P Shared MemoryInbox} {name : ActorName} {allowlist : Allowlist}
    {deadlines : Deadlines} {party : Boxed P}
    (h : (rt.installParty name allowlist deadlines party).result = .ok ()) :
    (∃ actor, (rt.installParty name allowlist deadlines party).rt.actors name = some actor ∧
      actor.party = some party) ∧
    (rt.installParty name allowlist deadlines party).rt.net.mailboxes.lookup (rt.address name) =
      some default := by
  unfold LocalRuntime.installParty LocalRuntime.installInner at h ⊢
  split at h
  · cases h
  · rename_i hfree
    simp only [if_neg hfree] at h ⊢
    split at h
    · cases h
    · rename_i inbox net hbind
      obtain ⟨hfresh, rfl, rfl⟩ := Shared.bind_ok hbind
      exact ⟨⟨_, LocalRuntime.setActor_self .., rfl⟩, AList.lookup_insert ..⟩

theorem owes_start {rt : LocalRuntime P Shared MemoryInbox} (haddress : rt.address peer.name = peer)
    {allowlist heeded : Allowlist} {deadlines deadlines' : Deadlines} {party : Boxed P} {n : Nat}
    (hinstalled : (rt.installParty peer.name allowlist deadlines party).result = .ok ())
    (hholds : Holds I app peer
      (start app peer deadlines' heeded (rt.installParty peer.name allowlist deadlines party).rt))
    (hrunsOut : RunsOut app party n) :
    Owes I app peer
      (start app peer deadlines' heeded (rt.installParty peer.name allowlist deadlines party).rt) (4 * n) := by
  obtain ⟨⟨actor, hactor, hparty⟩, hlookup⟩ := installParty_ok hinstalled
  obtain ⟨actor', toApp, toPeer, answers, hgoing, hreceipted⟩ := hholds
  cases hgoing.installed.symm.trans hactor
  obtain ⟨party', hparty', hI⟩ := hgoing.party
  cases hparty'.symm.trans hparty
  have hright := hgoing.wired.right
  rw [haddress] at hlookup
  have hnet : (start app peer deadlines' heeded
      (rt.installParty peer.name allowlist deadlines party).rt).rt.net.mailboxes.lookup peer = some default :=
    hlookup
  rw [hnet] at hright
  have htoPeer : toPeer = [] := List.map_eq_nil_iff.mp (Option.some.inj hright).symm
  have hasked := hreceipted.asked
  have hanswers : answers = [] := by
    subst htoPeer
    simpa [start] using hasked.symm
  have htoApp : toApp = [] := by
    have harrived := hreceipted.arrived
    rw [hanswers, List.flatMap_nil] at harrived
    exact (List.append_eq_nil_iff.mp harrived).2
  subst htoPeer htoApp
  refine ⟨actor, [], [], n, ⟨hgoing, ⟨answers, hreceipted⟩, party, hparty, hI, hrunsOut⟩, ?_⟩
  simp [burden, start, Phone.converse, TurnState.owing]

/-- Both sides are idle and wait for nothing, and each request of the app has its answer. -/
structure AtRest (app peer : Address) (line : Line P) : Prop where
  phone : line.phone.held = default
  actor : ∃ actor, line.rt.actors peer.name = some actor ∧ actor.peer app = default
  answered : line.heard.map (fun heard => heard.1.response.map (·.id)) =
    (line.said.filterMap Turn.request).map fun request => some request.id

omit [Party P] in
theorem Receipted.answered {toApp toPeer : List Message} {answers : List (Request × Turn)}
    (h : Receipted line toApp toPeer answers) (htoApp : toApp = []) (htoPeer : toPeer = []) :
    line.heard.map (fun heard => heard.1.response.map (·.id)) =
      (line.said.filterMap Turn.request).map fun request => some request.id := by
  subst htoApp htoPeer
  have hasked : line.said.filterMap Turn.request = answers.map (·.1) := by simpa using h.asked
  have harrived := h.arrived
  rw [List.append_nil] at harrived
  have hturns : line.read.filterMap Message.turn = answers.map (·.2) := by
    rw [harrived, List.filterMap_flatMap, List.map_eq_flatMap]
    rfl
  rw [h.heard, hturns, hasked, List.map_map, List.map_map, List.map_map]
  exact List.map_congr_left h.answering

omit [Party P] in
theorem Going.rest (h : Going I app peer line actor [] []) (htimely : line.Timely)
    (howes : ∀ id, line.phone.state ≠ .OweThem id) :
    line.phone.held = default ∧ actor.peer app = default := by
  have hstate : line.phone.state = .Idle ∧ (actor.peer app).state = .Idle := by
    have hstage := h.stage
    generalize line.phone.state = s at hstage howes
    generalize line.phone.ackDue.map (·.1) = due at hstage
    generalize (actor.peer app).state = t at hstage
    cases hstage with
    | rest => exact ⟨rfl, rfl⟩
    | owes x => exact absurd rfl (howes x)
  obtain ⟨hphone, hactor⟩ := hstate
  exact ⟨htimely.phone.held_waiting.idle hphone, (htimely.actors _ _ h.installed app).idle hactor⟩

theorem cost_brings (line : Line P) (acts : List Act) :
    Run.cost act (fun _ a => a.brings) line acts =
      4 * acts.countP Act.opens + acts.countP Act.isReceipt := by
  induction acts generalizing line with
  | nil => rfl
  | cons a acts ih =>
    rw [Run.cost, ih, List.countP_cons, List.countP_cons, Act.brings]
    cases a.opens <;> cases a.isReceipt <;> simp <;> omega

omit [Party P] in
theorem timely_start {rt : LocalRuntime P Shared MemoryInbox} (hwaiting : rt.Each PeerState.Waiting)
    (deadlines : Deadlines) (allowlist : Allowlist) : (start app peer deadlines allowlist rt).Timely :=
  ⟨(Phone.Started.converse (N := Shared) app peer deadlines).mirrors, hwaiting⟩

end

/-- A party that keeps its contract and asks the app no more than `n` questions, in a runtime on which
anything was called before, and a phone: nothing parts the two, and nobody is killed, revoked or out of
time. However the app's sends, the runtime's steps and the pump's reads interleave, a turn is sent or a
message is taken no more than four times for each question and each `Open` that the app asks for, refused or
not, and once for each receipt that the app sends by hand. When nothing is left to take and the phone owes
no turn, the exchange is over: both sides are idle, no wait is armed, and each request has been answered. -/
theorem every_exchange_ends [Party P] (app peer : Address) (fresh : LocalRuntime P Shared MemoryInbox)
    (hfresh : fresh.Fresh) (calls : List (Call P Shared)) (hendpoint : (fresh.after calls).endpoint = peer.endpoint)
    (hthere : (app.endpoint, peer.endpoint) ∉ (fresh.after calls).net.partitions)
    (hback : (peer.endpoint, app.endpoint) ∉ (fresh.after calls).net.partitions)
    (hinbox : ((fresh.after calls).net.mailboxes.lookup app).map (·.queue) = some [])
    (allowlist heeded : Allowlist) (hallowed : allowlist.allows app.endpoint = true)
    (hheeded : heeded.allows peer.endpoint = true) (deadlines deadlines' : Deadlines) (party : Boxed P)
    (hobeys : Obeys app party) {n : Nat} (hrunsOut : RunsOut app party n)
    (hinstalled : ((fresh.after calls).installParty peer.name allowlist deadlines party).result = .ok ())
    (acts : List Act)
    (hundisturbed : Run.Along act Undisturbed (start app peer deadlines' heeded
      ((fresh.after calls).installParty peer.name allowlist deadlines party).rt) acts) :
    let line₀ := start app peer deadlines' heeded
      ((fresh.after calls).installParty peer.name allowlist deadlines party).rt
    let line := line₀.after acts
    Run.cost act work line₀ acts ≤ 4 * (n + acts.countP Act.opens) + acts.countP Act.isReceipt ∧
      (line.queued app = [] → line.queued peer = [] → (∀ id, line.phone.state ≠ .OweThem id) →
        AtRest app peer line) := by
  intro line₀ line
  obtain ⟨I, hkeeps, hI⟩ := hobeys
  have haddress : (fresh.after calls).address peer.name = peer := congrArg₂ _ hendpoint rfl
  have hholds : Holds I app peer line₀ :=
    holds_start hendpoint hthere hback hinbox hallowed hheeded deadlines deadlines' hI hinstalled
  have hpaid : ∃ credit, Owes I app peer line credit ∧
      Run.cost act work line₀ acts + credit ≤ 4 * n + Run.cost act (fun _ a => a.brings) line₀ acts :=
    Run.cost_credit act (fun _ a _ h hok => h.act hkeeps a hok) line₀ acts (4 * n)
      (owes_start haddress hinstalled hholds hrunsOut) hundisturbed
  obtain ⟨credit, ⟨actor, toApp, toPeer, n', hasking, -⟩, hcost⟩ := hpaid
  refine ⟨?_, fun hqueuedApp hqueuedPeer howes => ?_⟩
  · rw [cost_brings] at hcost
    omega
  · have hcalled := LocalRuntime.waiting_after (hfresh.each _) calls
    have hstart : line₀.Timely := timely_start
      (LocalRuntime.waiting_exec hcalled (.InstallParty peer.name allowlist deadlines party)) deadlines' heeded
    have htimely : line.Timely := Run.invariant_all act (fun _ a h => h.act a) line₀ acts hstart
    obtain ⟨hleft, hright⟩ := hasking.going.queued
    obtain rfl : toApp = [] := hleft.symm.trans hqueuedApp
    obtain rfl : toPeer = [] := hright.symm.trans hqueuedPeer
    obtain ⟨answers, hreceipted⟩ := hasking.receipted
    obtain ⟨hphone, hactor⟩ := hasking.going.rest htimely howes
    exact ⟨hphone, ⟨actor, hasking.going.installed, hactor⟩, hreceipted.answered rfl rfl⟩

/-- Alice opens, Bob's party asks back once, and Alice closes. -/
theorem every_exchange_ends_bob :
    let fresh : LocalRuntime CountdownParty Shared MemoryInbox :=
      .new Sample.bob.endpoint (Shared.new.register Sample.alice).2 0 Sample.patience
    let installed := fresh.installParty Sample.bob.name ⟨{Sample.alice.endpoint}⟩ Sample.patience
      (.app (.new 1))
    let line₀ := start Sample.alice Sample.bob Sample.patience ⟨{Sample.bob.endpoint}⟩ installed.rt
    let asked : List Act := [.SendTurn (.Open (Sample.request 1)), .Step 0, .Read 0, .Read 0,
      .SendTurn (.Close ⟨⟨Vector.replicate 16 100⟩, []⟩)]
    let acts := asked ++ [.Step 0]
    Run.cost act work line₀ acts = 6 ∧ Run.cost act work line₀ acts ≤ 8 ∧
      AtRest Sample.alice Sample.bob (line₀.after acts) := by
  intro fresh installed line₀ asked acts
  have hdue : ((line₀.after asked).rt.actors Sample.bob.name).bind (·.earliestDue) =
      some (Sample.alice, .Ack, 5) := by decide +kernel
  have hpeer : (line₀.after asked).phone.peer = Sample.bob := by decide +kernel
  have hclock : (line₀.after asked).rt.clock = 0 := by decide +kernel
  have hwatch : (line₀.after asked).rt.deathWatch = none := by decide +kernel
  have hlast : Undisturbed (line₀.after asked) (.Step 0) := by
    simp only [Undisturbed]
    rw [hpeer, hwatch, hclock]
    refine ⟨fun actor hactor wait hwait => ?_, fun watch h => by cases h⟩
    rw [hactor, Option.bind_some, hwait] at hdue
    cases hdue
    decide
  have hfirst : Run.Along act Undisturbed line₀ asked := by
    refine ⟨trivial, ⟨fun actor hactor => ?_, by decide⟩, trivial, trivial, trivial, trivial⟩
    cases hactor
    decide
  have h := every_exchange_ends Sample.alice Sample.bob fresh (LocalRuntime.fresh_new ..) [] rfl
    (by decide) (by decide) rfl ⟨{Sample.alice.endpoint}⟩ ⟨{Sample.bob.endpoint}⟩ (by decide) (by decide)
    Sample.patience Sample.patience (.app (.new 1)) (CountdownParty.obeys 1 _).app
    (CountdownParty.runsOut _ _).app rfl acts
    ((Run.along_append act line₀ asked [.Step 0]).mpr ⟨hfirst, hlast, trivial⟩)
  have hline : start Sample.alice Sample.bob Sample.patience ⟨{Sample.bob.endpoint}⟩
      ((fresh.after []).installParty Sample.bob.name ⟨{Sample.alice.endpoint}⟩ Sample.patience
        (.app (.new 1))).rt = line₀ := rfl
  rw [hline] at h
  have hidle : (line₀.after acts).phone.state = .Idle := by decide +kernel
  refine ⟨by decide +kernel, h.1.trans (by decide +kernel), h.2 ?_ ?_ fun id howes => ?_⟩
  · decide +kernel
  · decide +kernel
  · rw [hidle] at howes
    cases howes

end Line

end Kamiroh
