import Mathlib.Data.List.FinRange

/-!
# Three nodes that agree on a value

Each of three nodes is a proposer and an acceptor behind one lock. A call of a client locks the
node; its proposer asks the acceptors of the two other nodes for a promise, and then to accept a
value. Requests and replies may be delayed, overtake each other or be lost; a request that was
given up may still reach its acceptor.

Source: `paxos_example/src/main.rs`.

* A reply with an error is a text with status 200; that it cannot be decoded fails the call.
* An exchange that ends with an error of the network is left out of the replies.
-/

namespace RustExample.Paxos

open Function

/-- One of three nodes. -/
abbrev NodeId := Fin 3

/-- A value with its ballot. -/
structure Value where
  id : UInt64
  value : Option String
  deriving DecidableEq

/-! ### Acceptors -/

/-- The state of an acceptor. -/
structure Acceptor where
  maxId : UInt64 := 0
  acceptedPropose : Option Value := none

/-- What the handler of a request answers: a value, or the text of an error. -/
inductive Reply where
  | value (v : Value)
  | rejected (err : String)
  deriving DecidableEq

namespace Acceptor

/-- Promises a ballot that is not less. -/
def handlePrepare (a : Acceptor) (prepareId : UInt64) : Acceptor × Reply :=
  if prepareId < a.maxId then (a, .rejected "already accepted a propose with a higher id")
  else
    ({ a with maxId := prepareId },
      match a.acceptedPropose with
      | some propose => .value ⟨prepareId, propose.value⟩
      | none => .value ⟨prepareId, none⟩)

/-- Accepts what was promised last. -/
def handlePropose (a : Acceptor) (propose : Value) : Acceptor × Reply :=
  if a.maxId ≠ propose.id then (a, .rejected "cannot accept propose with lower id")
  else ({ a with acceptedPropose := some propose }, .value propose)

end Acceptor

/-- The messages. -/
inductive Message where
  | prepare (prepareId : UInt64)
  | propose (v : Value)
  deriving DecidableEq

/-- Handles a message. -/
def Acceptor.handle (a : Acceptor) : Message → Acceptor × Reply
  | .prepare prepareId => a.handlePrepare prepareId
  | .propose v => a.handlePropose v

/-! ### Calls -/

/-- Where the exchange with another node stands. -/
inductive Outcome where
  | waiting
  | failed
  | received (reply : Reply)
  deriving DecidableEq

/-- The other nodes, in the order of the configuration. -/
def others (node : NodeId) : List NodeId := (List.finRange 3).filter (· ≠ node)

/-- The values received; an error of the network is passed over, and one of the acceptor is not. -/
def collect : List Outcome → Except String (List Value)
  | [] => .ok []
  | .received (.value v) :: outcomes => (collect outcomes).map (v :: ·)
  | .received (.rejected _) :: _ => .error "error decoding response body"
  | .failed :: outcomes | .waiting :: outcomes => collect outcomes

/-- More than half of the nodes. -/
def majority (nodes : List NodeId) : ℕ := nodes.length / 2 + 1

/-- The last of the values with the largest id. -/
def maxById (values : List Value) : Option Value :=
  values.foldl (fun best v => if best.any (v.id < ·.id) then best else some v) none

/-- The first half of a call: whether a promise had a value, and the value to propose. -/
def afterPrepare (nodes : List NodeId) (value : String) (outcomes : NodeId → Outcome) :
    Except String (Bool × Option String) := do
  let promises ← collect (nodes.map outcomes)
  if promises.length + 1 < majority nodes then
    throw "didn't received promise from majority of acceptors"
  match maxById (promises.filter (·.value.isSome)) with
  | some accepted => return (true, accepted.value)
  | none => return (false, some value)

/-- The answer after the proposals. -/
def afterPropose (nodes : List NodeId) (hasAccepted : Bool) (outcomes : NodeId → Outcome) :
    Except String Unit := do
  let acceptedValues ← collect (nodes.map outcomes)
  if acceptedValues.length + 1 < majority nodes then throw "value not accepted by majority"
  if hasAccepted then throw "already accepted another value"

/-- The stages of a call at a node for a value. -/
inductive Call where
  | unused
  | preparing (node : NodeId) (value : String) (id : UInt64) (outcomes : NodeId → Outcome)
  | proposing (node : NodeId) (value : String) (propose : Value) (hasAccepted : Bool)
      (outcomes : NodeId → Outcome)
  | answered

/-- What a call answers when its exchanges are over; nothing if it goes on to propose. -/
def Call.result : Call → Option (Except String String)
  | .preparing node value _ outcomes =>
    match afterPrepare (others node) value outcomes with
    | .error err => some (.error err)
    | .ok _ => none
  | .proposing node value _ hasAccepted outcomes =>
    some ((afterPropose (others node) hasAccepted outcomes).map fun _ => "Accepted " ++ value)
  | .unused | .answered => none

/-! ### The system -/

/-- A message of a call to another node. -/
structure Request where
  call : ℕ
  target : NodeId
  message : Message
  deriving DecidableEq

/-- The nodes and the calls. -/
structure Cluster where
  proposerId : NodeId → UInt64
  acceptor : NodeId → Acceptor
  locked : NodeId → Bool
  calls : ℕ → Call
  requests : List Request
  replies : List (Request × Reply)

namespace Cluster

def initial : Cluster := ⟨fun _ => 0, fun _ => {}, fun _ => false, fun _ => .unused, [], []⟩

/-- A call comes to a stage. -/
def setCall (s : Cluster) (c : ℕ) (call : Call) : Cluster :=
  { s with calls := update s.calls c call }

/-- Send a message to the other nodes. -/
def send (s : Cluster) (c : ℕ) (node : NodeId) (message : Message) : Cluster :=
  { s with requests := s.requests ++ (others node).map (⟨c, ·, message⟩) }

/-- A node starts a call. -/
def start (s : Cluster) (c : ℕ) (node : NodeId) (value : String) : Cluster :=
  let id := s.proposerId node + 1
  { (s.setCall c (.preparing node value id fun _ => .waiting)).send c node (.prepare id) with
    proposerId := update s.proposerId node id
    locked := update s.locked node true }

/-- The call goes on with a proposal. -/
def propose (s : Cluster) (c : ℕ) (node : NodeId) (value : String) (v : Value)
    (hasAccepted : Bool) : Cluster :=
  (s.setCall c (.proposing node value v hasAccepted fun _ => .waiting)).send c node (.propose v)

/-- The call ends, and unlocks its node. -/
def finish (s : Cluster) (c : ℕ) (node : NodeId) : Cluster :=
  { s.setCall c .answered with locked := update s.locked node false }

end Cluster

/-- The exchange of a call with a node ends. -/
def Call.settle (call : Call) (target : NodeId) (message : Message) (outcome : Outcome) :
    Option Call :=
  match call, message with
  | .preparing node value id outcomes, .prepare prepareId =>
    if id = prepareId ∧ outcomes target = .waiting then
      some (.preparing node value id (update outcomes target outcome))
    else none
  | .proposing node value v hasAccepted outcomes, .propose v' =>
    if v = v' ∧ outcomes target = .waiting then
      some (.proposing node value v hasAccepted (update outcomes target outcome))
    else none
  | _, _ => none

/-- The node of a call. -/
def Call.node? : Call → Option NodeId
  | .preparing node _ _ _ | .proposing node _ _ _ _ => some node
  | .unused | .answered => none

/-- No exchange of the call is under way. -/
def Call.Over : Call → Prop
  | .preparing node _ _ outcomes | .proposing node _ _ _ outcomes =>
    ∀ a ∈ others node, outcomes a ≠ .waiting
  | .unused | .answered => False

instance (call : Call) : Decidable call.Over :=
  match call with
  | .preparing node _ _ outcomes | .proposing node _ _ _ outcomes =>
    inferInstanceAs (Decidable (∀ a ∈ others node, outcomes a ≠ .waiting))
  | .unused | .answered => inferInstanceAs (Decidable False)

/-- What may happen. -/
inductive Event where
  | clientPropose (c : ℕ) (node : NodeId) (value : String)
  | handle (request : Request) (reply : Reply)
  | receive (request : Request) (reply : Reply)
  | fail (request : Request)
  | propose (c : ℕ)
  | answer (c : ℕ) (result : Except String String)

/-- One step of the system. A node that is locked by a call handles no requests. -/
def Step (s : Cluster) (e : Event) (s' : Cluster) : Prop :=
  match e with
  | .clientPropose c node value => s.calls c = .unused ∧ s.locked node = false ∧
      s' = s.start c node value
  | .handle request reply => request ∈ s.requests ∧ s.locked request.target = false ∧
      ∃ a, (s.acceptor request.target).handle request.message = (a, reply) ∧
      s' = { s with
        acceptor := update s.acceptor request.target a
        requests := s.requests.erase request
        replies := s.replies ++ [(request, reply)] }
  | .receive request reply => (request, reply) ∈ s.replies ∧ ∃ call,
      (s.calls request.call).settle request.target request.message (.received reply) =
        some call ∧
      s' = { s.setCall request.call call with replies := s.replies.erase (request, reply) }
  | .fail request => ∃ call,
      (s.calls request.call).settle request.target request.message .failed = some call ∧
      s' = s.setCall request.call call
  | .propose c => ∃ node value id outcomes hasAccepted v,
      s.calls c = .preparing node value id outcomes ∧ (s.calls c).Over ∧
      afterPrepare (others node) value outcomes = .ok (hasAccepted, v) ∧
      s' = s.propose c node value ⟨id, v⟩ hasAccepted
  | .answer c result => ∃ node, (s.calls c).node? = some node ∧ (s.calls c).Over ∧
      (s.calls c).result = some result ∧ s' = s.finish c node

end RustExample.Paxos
