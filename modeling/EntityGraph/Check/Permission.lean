import EntityGraph.Check.Issue
import EntityGraph.Schema.Basic

/-!
# Checks of permissions

Profiles have names of their own. Permissions name a profile that exists, or roles, and not both.
Only root entities have permissions as a whole, and each needs some: its own or the default
profile.
-/

namespace EntityGraph

namespace Schema

/-- The profiles that share their name with another one. -/
def profileFindings (s : Schema) : List Finding :=
  (s.profiles.filter fun p => 1 < (s.profiles.filter (·.name == p.name)).length).map fun p =>
    ⟨.duplicateProfile p.name, p.location⟩

/-- The issues of the permissions of a type or field. -/
def permissionIssues (s : Schema) (p : Permissions) : List Issue :=
  (if p.profile.isSome && p.roles.isSome then [.profileAndRoles] else []) ++
    match p.profile with
    | some name => if (s.profile? name).isNone then [.profileNotFound name] else []
    | none => []

/-- The issues of a type's permissions. -/
def typePermissionIssues (s : Schema) (t : TypeDef) : List Issue :=
  match t.permissions with
  | some p => if t.isRoot then s.permissionIssues p else [.permissionsOnNonRoot]
  | none =>
    if t.isRoot && (s.profile? defaultProfileName).isNone then [.noPermissions t.name] else []

end Schema

end EntityGraph
