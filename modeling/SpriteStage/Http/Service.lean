import SpriteStage.Http.Check
import SpriteStage.Http.Endpoint
import SpriteStage.Http.Response
import SpriteStage.Hub.Relay
import SpriteStage.Outbox
/-!
# The service

A stage behind requests.
-/
namespace SpriteStage.Http

variable {α : Type} [Scalar α]

structure Request (α : Type) where
  method : String
  target : Target
  body : Body α
deriving Repr

/-- Handles a request for one actor, if the path names one. -/
def withActor (s : Stage α) (part : String) (f : Int → Reply α (Response α)) :
    Reply α (Response α) :=
  match actorId part with
  | .error found => s.reply (.refused found)
  | .ok actor => f actor

def withBody {β : Type} (s : Stage α) (part : String) (body : Option (Value α))
    (check : Fields α → Checked α β) (f : Int → β → Reply α (Response α)) :
    Reply α (Response α) :=
  match (actorId part).both ((bodyFields body).bind check) with
  | .error found => s.reply (.refused found)
  | .ok (actor, b) => f actor b

def respond {β : Type} (status : Nat) (tell : β → Option (Answer α))
    (r : Reply α (Except Error β)) : Reply α (Response α) :=
  ⟨r.stage, r.out, .ofResult status tell r.result⟩

/-- The response to a reply of the stage, telling how the actor is afterwards. -/
def respondActor {β : Type} (actor : Int) (r : Reply α (Except Error β)) :
    Reply α (Response α) :=
  let result := r.result.bind fun _ => r.stage.store.get actor
  ⟨r.stage, r.out, .ofResult 200 (some ∘ .actor) result⟩

def waitFlag (t : Target) : Checked α Bool :=
  match t.last? "wait" with
  | none => .ok false
  | some word => Checked.ofField ["query", "wait"] (.text word) (flag word)

def statusOf (s : Stage α) : Response α :=
  .ok (.status s.isPlaying s.store.running)

def handle (fuel : Nat) (s : Stage α) (t : Target) (body : Option (Value α)) :
    Endpoint → Reply α (Response α)
  | .manual => s.reply ⟨200, none⟩
  | .health => s.reply (.ok .health)
  | .info => s.reply (.ok (.info "blockstage" "0.1.0"))
  | .status => s.reply (statusOf s)
  | .catalog =>
    match (t.last? "category").filter (· != "") with
    | none => s.reply (.ok (.catalog s.world.catalog.types))
    | some name =>
      s.reply (.ofResult 200 (some ∘ .catalog)
        ((Category.ofName name).map s.world.catalog.ofCategory))
  | .listActors => s.reply (.ok (.actors s.store.actors s.selected))
  | .addActor =>
    match (bodyFields body).bind casting with
    | .error found => s.reply (.refused found)
    | .ok new => respond 201 (some ∘ .actor) (s.addActor new)
  | .getActor a => withActor s a fun actor =>
    s.reply (.ofResult 200 (some ∘ .actor) (s.store.get actor))
  | .deleteActor a => withActor s a fun actor => respond 204 (fun _ => none) (s.deleteActor actor)
  | .selectActor a => withActor s a fun actor => respond 200 (some ∘ .actor) (s.selectActor actor)
  | .submitBlock a => withBody s a body submission fun actor (typeId, inputs, parent) =>
    respond 201 (some ∘ .block) (s.submit actor typeId inputs parent)
  | .clearProgram a => withActor s a fun actor => respondActor actor (s.clearProgram actor)
  | .reorderBlocks a => withBody s a body reordering fun actor (source, target) =>
    respondActor actor (s.reorder actor source target)
  | .editInput a block => withBody s a body inputEdit fun actor (name, value) =>
    respond 200 (some ∘ .block) (s.editInput actor block name value)
  | .removeBlock a block => withActor s a fun actor =>
    respond 200 (some ∘ .block) (s.removeBlock actor block)
  | .duplicateBlock a block => withActor s a fun actor =>
    respond 201 (some ∘ .block) (s.duplicate actor block)
  | .play =>
    match waitFlag t with
    | .error found => s.reply (.refused found)
    | .ok wait =>
      let r := s.playAll
      let idle := if wait then r.stage.awaitIdle fuel else r.stage.reply ()
      ⟨idle.stage, r.out ++ idle.out, .ok (.play r.result idle.stage.isPlaying)⟩
  | .stop =>
    let r := s.stopAll
    ⟨r.stage, r.out, statusOf r.stage⟩
  | .playActor a => withActor s a fun actor =>
    let r := s.playActor actor
    respond 200 (fun started =>
      some (.play (if started then [actor] else []) r.stage.isPlaying)) r
  | .stopActor a => withActor s a fun actor => respondActor actor (s.stopActor actor)

def Endpoint.readsBody : Endpoint → Bool
  | .addActor | .submitBlock _ | .reorderBlocks _ | .editInput .. => true
  | _ => false

/-- Finds the response to a request. A body that cannot be read is refused before anything else is
checked. -/
def respondTo (fuel : Nat) (s : Stage α) (r : Request α) : Reply α (Response α) :=
  match Endpoint.route r.method r.target.path with
  | .unknown => s.reply ⟨404, some (.detail "Not Found")⟩
  | .wrongMethod => s.reply ⟨405, some (.detail "Method Not Allowed")⟩
  | .moved => s.reply ⟨307, none⟩
  | .found endpoint =>
    if endpoint.readsBody then
      match r.body.read with
      | .error flaw => s.reply (.unread flaw)
      | .ok body => handle fuel s r.target body endpoint
    else handle fuel s r.target none endpoint

/-- How many steps an operation may go down that is asked for by a request. -/
def requestRoom : Nat := 968

/-- Handles a request. What was done stays done if the response cannot be written. -/
def answer (fuel : Nat) (s : Stage α) (r : Request α) : Reply α (Except Error (Response α)) :=
  let reply := respondTo fuel (s.withRoom requestRoom) r
  ⟨reply.stage.withRoom s.world.room, reply.out, reply.result.send⟩

structure Copies (α : Type) where
  reachable : Bool
  sent : List (Event α)
deriving Repr

/-- A stage with its clients and its outbox. -/
structure Service (α : Type) where
  stage : Stage α
  relay : Relay Nat (Event α)
  /-- The number of the connection that a client opened last. -/
  clients : List (String × Nat)
  copies : Option (Copies α)
  /-- How many ticks an operation may take. -/
  fuel : Nat
deriving Repr

namespace Service

def maxQueue : Int := 1000

/-- A service over a new stage with its first actor, and what starting it logs. -/
def start (settings : Settings α) (draws : Draws α) (copies : Option (Copies α)) (fuel : Nat) :
    Service α × List (Notice α) :=
  ({ stage := (Stage.new settings draws).init.stage, relay := .new maxQueue, clients := [], copies,
      fuel },
    if copies.isSome then [.publishing] else [])

def copy (v : Service α) (e : Event α) : Service α × List (Notice α) :=
  match v.copies with
  | none => (v, [])
  | some m =>
    if m.reachable then ({ v with copies := some { m with sent := m.sent ++ [e] } }, [])
    else (v, [.publishFailed e.actor Outbox.standardStream])

def clientName (v : Service α) (number : Nat) : String :=
  ((v.clients.find? (·.2 == number)).map (·.1)).getD ""

/-- Tells an event to the clients, then to the outbox. -/
def tell (v : Service α) (e : Event α) : Service α × List (Notice α) :=
  let (relay, dropped) := v.relay.publish e
  let (v, failed) := ({ v with relay } : Service α).copy e
  (v, dropped.map (fun n => .slowClient (v.clientName n)) ++ failed)

/-- Tells the events among signals; the notices that this causes follow the events. -/
def tellAll : List (Signal α) → Service α → Service α × List (Notice α)
  | [], v => (v, [])
  | .event e :: rest, v =>
    let (v, notices) := v.tell e
    let (v, more) := tellAll rest v
    (v, notices ++ more)
  | .notice n :: rest, v =>
    let (v, more) := tellAll rest v
    (v, n :: more)
  | _ :: rest, v => tellAll rest v

/-- Applies an operation of the stage, then lets the ready tasks take their turns. -/
def apply {β : Type} (v : Service α) (op : Stage α → Reply α β) :
    Service α × List (Notice α) × β :=
  let r := op v.stage
  let rest := r.stage.drain v.fuel
  let (v, notices) := tellAll (r.out ++ rest.out) { v with stage := rest.stage }
  (v, notices, r.result)

def request (v : Service α) (r : Request α) :
    Service α × List (Notice α) × Except Error (Response α) :=
  v.apply (answer v.fuel · r)

def openClient (v : Service α) (name : String) : Service α :=
  let number := v.relay.hub.queues.length
  { v with
    relay := (v.relay.connect number).startPump number
    clients := (name, number) :: v.clients }

def closeClient (v : Service α) (name : String) : Service α :=
  match v.clients.lookup name with
  | none => v
  | some number => { v with relay := v.relay.disconnect number }

def takeClient (v : Service α) (name : String) : Service α × List (Delivery (Event α)) :=
  match v.clients.lookup name with
  | none => (v, [])
  | some number =>
    let (relay, received) := v.relay.take number
    ({ v with relay }, received)

def shutdown (v : Service α) : Service α × List (Notice α) :=
  let (v, notices, _) := v.apply Stage.stopAll
  (v, notices)

end Service

end SpriteStage.Http
