import Mathlib.Data.Finset.Insert
import Mathlib.Data.Finset.Basic

/-!
# The vocabulary: identities, messages, patience

Values only, as in `kamiroh-domain`. A `Duration` and an `Instant` are counts of nanoseconds.
-/

namespace Kamiroh

/-! ## Identities -/

structure Hex where
  val : String
  nonEmpty : val ≠ ""
  lowerHex : ∀ c ∈ val.toList, c ∈ "0123456789abcdef".toList
deriving DecidableEq

/-- The identity that the transport proves. -/
structure EndpointId where
  hex : Hex
deriving DecidableEq

/-- A name within an endpoint. The remote runtime claims it, nothing proves it. -/
structure ActorName where
  val : String
  nonEmpty : val ≠ ""
deriving DecidableEq

structure Address where
  endpoint : EndpointId
  name : ActorName
deriving DecidableEq

structure RequestId where
  bytes : Vector UInt8 16
deriving DecidableEq

/-! ## Messages -/

structure Request where
  id : RequestId
  body : List UInt8
deriving DecidableEq

/-- The delivery receipt of a request, not its answer. -/
structure Ack where
  id : RequestId
deriving DecidableEq

structure Response where
  id : RequestId
  body : List UInt8
deriving DecidableEq

inductive Harness
  | Spawn (name : ActorName)
  | Spawned (name : ActorName)
  | Stop (name : ActorName)
  | Stopped (name : ActorName)
  | Ping
  | Pong
  | Failed (reason : String)
deriving DecidableEq

inductive Turn
  | Open (request : Request)
  | Continue (response : Response) (request : Request)
  | Close (response : Response)
deriving DecidableEq

namespace Turn

def response : Turn → Option Response
  | Open _ => none
  | Continue response _ | Close response => some response

/-- The request half, the new outstanding request after this turn. -/
def request : Turn → Option Request
  | Open request | Continue _ request => some request
  | Close _ => none

def posed (turn : Turn) : Option RequestId := turn.request.map (·.id)

@[simp] theorem response_open (r : Request) : (Open r).response = none := rfl
@[simp] theorem response_continue (a : Response) (r : Request) : (Continue a r).response = some a := rfl
@[simp] theorem response_close (a : Response) : (Close a).response = some a := rfl
@[simp] theorem request_open (r : Request) : (Open r).request = some r := rfl
@[simp] theorem request_continue (a : Response) (r : Request) : (Continue a r).request = some r := rfl
@[simp] theorem request_close (a : Response) : (Close a).request = none := rfl
@[simp] theorem posed_open (r : Request) : (Open r).posed = some r.id := rfl
@[simp] theorem posed_continue (a : Response) (r : Request) : (Continue a r).posed = some r.id := rfl
@[simp] theorem posed_close (a : Response) : (Close a).posed = none := rfl

end Turn

inductive Message
  | Request (request : Request)
  | Ack (ack : Ack)
  | Harness (harness : Harness)
  | Turn (turn : Turn)
deriving DecidableEq

/-! ## Patience and failure -/

abbrev Duration := Nat
abbrev Instant := Nat

structure Deadlines where
  ack : Duration
  turn : Duration
deriving DecidableEq

inductive DeadlineKind
  | Ack
  | Turn
deriving DecidableEq

inductive FailureCause
  | DeadlineElapsed (kind : DeadlineKind)
  | SendFailed
  | IllegalReply
  | Disconnected
  | Revoked
deriving DecidableEq

/-! ## The allowlist -/

/-- The endpoints that an actor receives from. Deny by default. -/
structure Allowlist where
  endpoints : Finset EndpointId
deriving DecidableEq

namespace Allowlist

def empty : Allowlist := ⟨∅⟩

/-- `admit` in the source. -/
def admitEndpoint (list : Allowlist) (endpoint : EndpointId) : Allowlist :=
  ⟨insert endpoint list.endpoints⟩

def revoke (list : Allowlist) (endpoint : EndpointId) : Allowlist := ⟨list.endpoints.erase endpoint⟩

def allows (list : Allowlist) (endpoint : EndpointId) : Bool := endpoint ∈ list.endpoints

@[simp] theorem allows_empty (e : EndpointId) : empty.allows e = false := by simp [allows, empty]

@[simp] theorem allows_admitEndpoint (l : Allowlist) (e e' : EndpointId) :
    (l.admitEndpoint e).allows e' = (e' = e || l.allows e') := by simp [allows, admitEndpoint]

@[simp] theorem allows_revoke (l : Allowlist) (e e' : EndpointId) :
    (l.revoke e).allows e' = (e' ≠ e && l.allows e') := by simp [allows, revoke]

end Allowlist

/-! ## Names for examples -/

namespace Sample

/-- Alice and Carol have an endpoint each, Bob shares his with Dave. -/
def alice : Address := ⟨⟨⟨"aa", by decide, by simp⟩⟩, ⟨"alice", by decide⟩⟩
def bob : Address := ⟨⟨⟨"bb", by decide, by simp⟩⟩, ⟨"bob", by decide⟩⟩
def carol : Address := ⟨⟨⟨"cc", by decide, by simp⟩⟩, ⟨"carol", by decide⟩⟩
def dave : Address := ⟨bob.endpoint, ⟨"dave", by decide⟩⟩

def request (n : UInt8) : Request := ⟨⟨Vector.replicate 16 n⟩, [n]⟩

def patience : Deadlines := ⟨5, 60⟩

end Sample

end Kamiroh
