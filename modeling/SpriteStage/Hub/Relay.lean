import SpriteStage.Hub
/-! # Pumped clients -/
namespace SpriteStage

inductive Delivery (π : Type) where
  | accepted
  | payload (p : π)
deriving Repr

/-- A hub, the queues that are pumped and the inboxes of the clients. -/
structure Relay (σ π : Type) where
  hub : Hub σ π
  pumped : List Nat
  /-- What was received and not looked at yet, the oldest first. -/
  inbox : List (σ × Delivery π)
deriving Repr

namespace Relay

variable {σ π : Type} [DecidableEq σ]

def new (maxQueue : Int) : Relay σ π := ⟨Hub.new maxQueue, [], []⟩

def empty (r : Relay σ π) (queue : Nat) : Relay σ π :=
  match r.hub.queues[queue]? with
  | none => r
  | some q =>
    { r with
      hub := q.items.foldl (fun h _ => h.pump queue) r.hub
      inbox := r.inbox ++ q.items.map fun p => (q.owner, .payload p) }

/-- Lets all pumps run until their queues are empty. -/
def settle (r : Relay σ π) : Relay σ π :=
  r.pumped.foldl empty r

def connect (r : Relay σ π) (client : σ) : Relay σ π :=
  { r with hub := (r.hub.connect client).1, inbox := r.inbox ++ [(client, .accepted)] }

def disconnect (r : Relay σ π) (client : σ) : Relay σ π :=
  { r with hub := r.hub.disconnect client }

def publish (r : Relay σ π) (payload : π) : Relay σ π × List σ :=
  let (hub, dropped) := r.hub.publish payload
  (({ r with hub } : Relay σ π).settle, dropped)

/-- Pumps the queue that a client was handed last, from now on. -/
def startPump (r : Relay σ π) (client : σ) : Relay σ π :=
  match r.hub.latest? client with
  | none => r
  | some queue => ({ r with pumped := r.pumped ++ [queue] } : Relay σ π).settle

/-- Looks at what a client has received since the last look. -/
def take (r : Relay σ π) (client : σ) : Relay σ π × List (Delivery π) :=
  ({ r with inbox := r.inbox.filter (·.1 != client) },
    (r.inbox.filter (·.1 == client)).map (·.2))

def waiting (r : Relay σ π) (client : σ) : Nat :=
  (((r.hub.latest? client).bind (r.hub.queues[·]?)).map (·.items.length)).getD 0

def clients (r : Relay σ π) : List σ :=
  (r.hub.queues.map (·.owner)).eraseDups

end Relay

end SpriteStage
