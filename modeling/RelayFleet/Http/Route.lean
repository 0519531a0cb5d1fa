import RelayFleet.Http.Path

/-!
# Routes

What can be asked for, and under which method and path. Names in a path may be empty, but not at
its end; a slash at the end makes another path.
-/

namespace RelayFleet.Http

/-- What can be asked for. Names are as they stand in the path. -/
inductive Route where
  | assign (zone : String)
  | listRelays (zone : String)
  | destroy (id : String)
  | start (id : String)
  | stop (id : String)
  | reboot (id : String)
  | status (id : String)
  | disconnect (id : String)
  | migrationStart (id : String)
  | migrationComplete (id : String)
  | getMode
  | setMode
  | resumeMode
  | metrics
deriving Repr, DecidableEq, Inhabited

/-- The methods that a path has, each with its route. -/
def methods : List String → List (String × Route)
  | ["api", "v1", "zones", zone, "assign"] => [("POST", .assign zone)]
  | ["api", "v1", "zones", zone, "relays"] => [("GET", .listRelays zone)]
  | ["api", "v1", "relays", id] => if id.isEmpty then [] else [("DELETE", .destroy id)]
  | ["api", "v1", "relays", id, "start"] => [("POST", .start id)]
  | ["api", "v1", "relays", id, "stop"] => [("POST", .stop id)]
  | ["api", "v1", "relays", id, "reboot"] => [("POST", .reboot id)]
  | ["api", "v1", "relays", id, "status"] => [("POST", .status id)]
  | ["api", "v1", "relays", id, "disconnect"] => [("POST", .disconnect id)]
  | ["api", "v1", "relays", id, "migration", "start"] => [("POST", .migrationStart id)]
  | ["api", "v1", "relays", id, "migration", "complete"] => [("POST", .migrationComplete id)]
  | ["api", "v1", "management"] => [("GET", .getMode), ("PUT", .setMode)]
  | ["api", "v1", "management", "resume"] => [("POST", .resumeMode)]
  | ["metrics"] => [("GET", .metrics)]
  | _ => []

/-- Where a request leads. -/
inductive Destination where
  | nowhere
  /-- The path is known, the method is not one of its. -/
  | wrongMethod
  | route (r : Route)
deriving Repr, DecidableEq, Inhabited

/-- Where a method and a request target lead; `HEAD` leads where `GET` does. -/
def destination (method target : String) : Destination :=
  match methods (segments (pathOf target.toList)) with
  | [] => .nowhere
  | known =>
    match known.lookup (if method = "HEAD" then "GET" else method) with
    | some r => .route r
    | none => .wrongMethod

end RelayFleet.Http
