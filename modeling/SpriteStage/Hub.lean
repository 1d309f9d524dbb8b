/-!
# The hub

Every connected client has a queue, and a payload that is published goes to the queues of all
clients that are connected then. A full queue drops the payload, for its own client only.
-/
namespace SpriteStage

structure Outbound (σ π : Type) where
  owner : σ
  /-- The payloads that wait, the oldest first. -/
  items : List π
  /-- The payloads that were taken, the oldest first. -/
  taken : List π
deriving Repr

/-- The clients `σ` and their queues of payloads `π`. -/
structure Hub (σ π : Type) where
  /-- The length at which a queue is full; none is ever full if this is not positive. -/
  maxQueue : Int
  /-- All queues that were ever handed out. -/
  queues : List (Outbound σ π)
  /-- The clients that are connected, with the numbers of their queues. -/
  connected : List (σ × Nat)
deriving Repr

namespace Hub

variable {σ π : Type} [DecidableEq σ]

def new (maxQueue : Int) : Hub σ π := ⟨maxQueue, [], []⟩

/-- Whether a queue of some length takes no more. -/
def isFull (h : Hub σ π) (length : Nat) : Bool :=
  decide (0 < h.maxQueue) && decide (h.maxQueue ≤ length)

/-- Enters a client under a queue, in its old place if it is connected already. -/
def enter (client : σ) (queue : Nat) : List (σ × Nat) → List (σ × Nat)
  | [] => [(client, queue)]
  | (c, q) :: rest => if c = client then (c, queue) :: rest else (c, q) :: enter client queue rest

def connect (h : Hub σ π) (client : σ) : Hub σ π × Nat :=
  let queue := h.queues.length
  ({ h with
      queues := h.queues ++ [⟨client, [], []⟩]
      connected := enter client queue h.connected }, queue)

def disconnect (h : Hub σ π) (client : σ) : Hub σ π :=
  { h with connected := h.connected.filter (·.1 != client) }

def push (h : Hub σ π) (queue : Nat) (payload : π) : Hub σ π :=
  { h with queues := h.queues.modify queue fun q => { q with items := q.items ++ [payload] } }

/-- Publishes a payload to some clients, and names those whose queue was full. -/
def publishTo (payload : π) : List (σ × Nat) → Hub σ π → Hub σ π × List σ
  | [], h => (h, [])
  | (client, queue) :: rest, h =>
    let length := ((h.queues[queue]?).map (·.items.length)).getD 0
    if h.isFull length then
      let (h, dropped) := publishTo payload rest h
      (h, client :: dropped)
    else publishTo payload rest (h.push queue payload)

/-- Publishes a payload to all connected clients, and names those that miss it. -/
def publish (h : Hub σ π) (payload : π) : Hub σ π × List σ :=
  publishTo payload h.connected h

def pump (h : Hub σ π) (queue : Nat) : Hub σ π :=
  { h with
    queues := h.queues.modify queue fun q =>
      match q.items with
      | [] => q
      | payload :: rest => { q with items := rest, taken := q.taken ++ [payload] } }

def count (h : Hub σ π) : Nat := h.connected.length

/-- The number of the queue that was handed out to a client last. -/
def latest? (h : Hub σ π) (client : σ) : Option Nat :=
  ((h.queues.zipIdx).filter (·.1.owner == client)).getLast?.map (·.2)

end Hub

end SpriteStage
