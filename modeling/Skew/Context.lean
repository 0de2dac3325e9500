/-!
# Request contexts

The identity under which a request runs: who asks, for which project, with which
roles. Entities carry the context of the request they belong to.
-/

namespace Skew

structure Context where
  requestId : String
  userId? : Option String
  projectId? : Option String
  isAdmin : Bool
  roles : List String
deriving DecidableEq

namespace Context

def adminRole : String := "admin"

def ofUser (requestId user project : String) : Context :=
  ⟨requestId, some user, some project, false, []⟩

def admin (requestId : String) : Context := ⟨requestId, none, none, true, [adminRole]⟩

def withRole (c : Context) (role : String) : Context := { c with roles := c.roles ++ [role] }

/-- The same identity with administrative rights. -/
def elevated (c : Context) : Context :=
  { c with
    isAdmin := true
    roles := if adminRole ∈ c.roles then c.roles else c.roles ++ [adminRole] }

end Context

end Skew
