import BatchRelay.Registry.Records
import BatchRelay.Registry.Route

/-!
# The index of routes

From the hash of a transaction on its way to the batch that waits for it.  A
route is there from the moment the network takes the transaction until its
outcome has been applied.
-/

namespace BatchRelay

namespace Routes

/-- What the key of every route starts with. -/
def leading : String :=
  "pendingtransaction:"

/-- The key of a route. -/
def key (hash : String) : String :=
  leading ++ hash

/-- The hash in the key of a route. -/
def hash? (key : String) : Option String :=
  if Pieces.leads leading key then
    some (String.ofList (key.toList.drop leading.toList.length))
  else
    none

def insert (lifetimes : Lifetimes) (hash : String) (route : Route) :
    Activity (Except CacheError Unit) :=
  Activity.request (.write (key hash) route.encode lifetimes.route)

def get (hash : String) : Activity (Except CacheError (Option Route)) := do
  match ← Activity.request (.read (key hash)) with
  | .error error => return .error error
  | .ok value => return .ok (value.map Route.decode)

/-- The keys that have a value, paired with the routes in the values. -/
def pairs (keys : List String) (values : List (Option String)) :
    List (String × Route) :=
  (keys.zip values).filterMap fun (key, value) =>
    value.map fun text => (key, Route.decode text)

/-- The routes of many hashes; hashes without a route are left out. -/
def getMany (hashes : List String) :
    Activity (Except CacheError (List (String × Route))) := do
  match ← Activity.request (.readMany (hashes.map key)) with
  | .error error => return .error error
  | .ok values => return .ok (pairs hashes values)

/-- All routes, in the order of their hashes. -/
def all : Activity (Except CacheError (List (String × Route))) := do
  match ← Activity.request (.scan leading) with
  | .error error => return .error error
  | .ok keys =>
      match ← Activity.request (.readMany keys) with
      | .error error => return .error error
      | .ok values =>
          return .ok ((pairs keys values).filterMap fun (key, route) =>
            (hash? key).map fun hash => (hash, route))

def remove (hash : String) : Activity (Except CacheError Unit) :=
  Activity.request (.delete (key hash))

end Routes

end BatchRelay
