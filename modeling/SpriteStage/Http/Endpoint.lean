import SpriteStage.Http.Target
/-!
# Endpoints

Which operation a method and a path ask for. One line feed at the end of a path is part of a
parameter that stands there, and ignored after a fixed word.
-/
namespace SpriteStage.Http

inductive Endpoint where
  | manual
  | health
  | info
  | catalog
  | status
  | listActors
  | addActor
  | getActor (actor : String)
  | deleteActor (actor : String)
  | selectActor (actor : String)
  | submitBlock (actor : String)
  | clearProgram (actor : String)
  | reorderBlocks (actor : String)
  | editInput (actor block : String)
  | removeBlock (actor block : String)
  | duplicateBlock (actor block : String)
  | play
  | stop
  | playActor (actor : String)
  | stopActor (actor : String)
deriving DecidableEq, Repr

/-- What asking for a method of a path leads to. -/
inductive Routing where
  | found (endpoint : Endpoint)
  | wrongMethod
  /-- The path without its trailing slashes leads somewhere. -/
  | moved
  | unknown
deriving DecidableEq, Repr

namespace Endpoint

def manualMethods : List (String × Endpoint) := [("GET", manual), ("HEAD", manual)]

/-- The endpoints of a path that ends in a fixed word, by method. -/
def ofWords : List String → List (String × Endpoint)
  | ["docs"] | ["docs", "oauth2-redirect"] | ["redoc"] | ["openapi.json"] => manualMethods
  | ["healthcheck"] => [("GET", health)]
  | ["info"] => [("GET", info)]
  | ["catalog"] => [("GET", catalog)]
  | ["status"] => [("GET", status)]
  | ["play"] => [("POST", play)]
  | ["stop"] => [("POST", stop)]
  | ["actors"] => [("GET", listActors), ("POST", addActor)]
  | ["actors", a, "select"] => [("POST", selectActor a)]
  | ["actors", a, "play"] => [("POST", playActor a)]
  | ["actors", a, "stop"] => [("POST", stopActor a)]
  | ["actors", a, "blocks"] => [("POST", submitBlock a), ("DELETE", clearProgram a)]
  | ["actors", a, "blocks", "reorder"] => [("POST", reorderBlocks a)]
  | ["actors", a, "blocks", b, "duplicate"] => [("POST", duplicateBlock a b)]
  | _ => []

def ofParameter : List String → List (String × Endpoint)
  | ["actors", a] => [("GET", getActor a), ("DELETE", deleteActor a)]
  | ["actors", a, "blocks", b] => [("PATCH", editInput a b), ("DELETE", removeBlock a b)]
  | _ => []

def withoutLineFeed (path : String) : String :=
  match path.toList.reverse with
  | '\n' :: rest => String.ofList rest.reverse
  | _ => path

/-- The parts of a path, none of which may be empty. -/
def parts (path : String) : List String :=
  ((Target.segments path).filter (!·.contains "")).getD []

def ofPath (path : String) : List (String × Endpoint) :=
  ofWords (parts (withoutLineFeed path)) ++ ofParameter (parts path)

def withoutSlashes (path : String) : String :=
  String.ofList (path.toList.reverse.dropWhile (· == '/')).reverse

def route (method path : String) : Routing :=
  let routes := ofPath path
  match routes.lookup method with
  | some endpoint => .found endpoint
  | none =>
    if !routes.isEmpty then .wrongMethod
    else if path.toList.getLast? = some '/' && !(ofPath (withoutSlashes path)).isEmpty then .moved
    else .unknown

end Endpoint

end SpriteStage.Http
