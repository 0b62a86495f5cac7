import MappingGraph.Json.Basic

/-!
# Merge patches

A merge patch (RFC 7386) is a value that says how to change another.  An object changes member by
member: `null` removes the member, anything else is a patch for it.  Every other patch replaces its
target, and a target that is not an object counts as an empty one where members are to be changed.
-/

set_option autoImplicit false

namespace MappingGraph

namespace Json

/-- The members that a patch with members starts from. -/
def membersOrNone : Json → Members
  | object ms => ms
  | _ => []

/-- The target as the patch changes it. -/
def mergePatch : (patch target : Json) → Json
  | object ps, target => object (mergeMembers ps target.membersOrNone)
  | null, _ => null
  | bool b, _ => bool b
  | number n, _ => number n
  | string s, _ => string s
  | array xs, _ => array xs
where
  /-- Changes the members one after the other. -/
  mergeMembers : List (String × Json) → Members → Members
    | [], ms => ms
    | (key, .null) :: ps, ms => mergeMembers ps (Members.erase key ms)
    | (key, p) :: ps, ms =>
      mergeMembers ps (Members.set key (p.mergePatch ((Members.find? key ms).getD null)) ms)

end Json

end MappingGraph
