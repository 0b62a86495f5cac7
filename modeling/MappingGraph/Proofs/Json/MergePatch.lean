import MappingGraph.Proofs.Json.Canonical

/-!
# What a merge patch does

A merge patch works through its members one after the other, on members that earlier ones may have
changed.  It is described more simply by looking at one key: a member that the patch does not
mention is kept (`Json.find?_mergeMembers_of_not_mem`), and one that it mentions is changed by the
patch for it as if there were no others (`Json.find?_mergeMembers_of_mem`).  All the rest follows
from these two.

Since a key stands once in an object and the members ascend, an object is determined by what is
found under its keys.  So a patch that finds every member as it would leave it changes nothing at
all (`Json.mergeMembers_eq_self`), and this is how it meets its own outcome.

`Json.Merges` has the rules of RFC 7386 for the outcome of a patch.
-/

set_option autoImplicit false

namespace MappingGraph.Json

variable {patch target p : Json} {ps ms : Members} {key k : String} {keys : List String}

/-! ## One member -/

/-- What becomes of a member, or of the lack of one, under the patch for it. -/
def patched (p : Json) (old : Option Json) : Option Json :=
  if p.isNull then none else some (p.mergePatch (old.getD .null))

/-- The members, one of them changed by the patch for it. -/
def mergeMember (key : String) (p : Json) (ms : Members) : Members :=
  match p.patched (Members.find? key ms) with
  | some value => Members.set key value ms
  | none => Members.erase key ms

theorem patched_of_ne_null (h : p ≠ .null) (old : Option Json) :
    p.patched old = some (p.mergePatch (old.getD .null)) := by
  cases p with
  | null => exact absurd rfl h
  | _ => rfl

theorem mergeMembers_cons (key : String) (p : Json) (ps ms : Members) :
    mergePatch.mergeMembers ((key, p) :: ps) ms =
      mergePatch.mergeMembers ps (p.mergeMember key ms) := by
  cases p <;> rfl

theorem find?_mergeMember_self (key : String) (p : Json) (ms : Members) :
    Members.find? key (p.mergeMember key ms) = p.patched (Members.find? key ms) := by
  rw [mergeMember]
  split
  · next h => rw [h, Members.find?_set_self]
  · next h => rw [h, Members.find?_erase_self]

theorem find?_mergeMember_of_ne (h : k ≠ key) (p : Json) (ms : Members) :
    Members.find? k (p.mergeMember key ms) = Members.find? k ms := by
  rw [mergeMember]
  split
  · exact Members.find?_set_of_ne h _ ms
  · exact Members.find?_erase_of_ne h ms

/-! ## All members -/

/-- **A member that the patch does not mention** is kept. -/
theorem find?_mergeMembers_of_not_mem (h : key ∉ ps.keys) (ms : Members) :
    Members.find? key (mergePatch.mergeMembers ps ms) = Members.find? key ms := by
  induction ps generalizing ms with
  | nil => rfl
  | cons q ps ih =>
    rw [Members.keys, List.map_cons, List.mem_cons, not_or] at h
    rw [mergeMembers_cons, ih h.2, find?_mergeMember_of_ne h.1]

/-- **A member that the patch mentions** is changed by the patch for it and by nothing else. -/
theorem find?_mergeMembers_of_mem (hps : ps.keys.Nodup) (h : (key, p) ∈ ps) (ms : Members) :
    Members.find? key (mergePatch.mergeMembers ps ms) = p.patched (Members.find? key ms) := by
  induction ps generalizing ms with
  | nil => exact absurd h List.not_mem_nil
  | cons q ps ih =>
    obtain ⟨hq, hps⟩ := List.nodup_cons.mp hps
    rw [mergeMembers_cons]
    rcases List.mem_cons.mp h with rfl | h
    · rw [find?_mergeMembers_of_not_mem hq, find?_mergeMember_self]
    · have hne : key ≠ q.1 := fun heq ↦ hq (heq ▸ List.mem_map_of_mem h)
      rw [ih hps h, find?_mergeMember_of_ne hne]

/-- A patch without effect on any member it mentions has no effect. -/
theorem mergeMembers_eq_self (hms : ms.Ascending)
    (h : ∀ q ∈ ps, q.2.patched (Members.find? q.1 ms) = Members.find? q.1 ms) :
    mergePatch.mergeMembers ps ms = ms := by
  induction ps with
  | nil => rfl
  | cons q ps ih =>
    have hq : q.2.mergeMember q.1 ms = ms := by
      rw [mergeMember, h q List.mem_cons_self]
      split
      · next hv => exact hms.set_eq_self hv
      · next hv => exact Members.erase_eq_self hv
    rw [mergeMembers_cons, hq, ih fun r hr ↦ h r (List.mem_cons_of_mem q hr)]

/-! ## Values -/

theorem find?_membersOrNone (key : String) (v : Json) :
    Members.find? key v.membersOrNone = v.get? key := by
  cases v <;> rfl

theorem mergePatch_of_ne_object (h : ∀ ps, patch ≠ .object ps) (target : Json) :
    patch.mergePatch target = patch := by
  cases patch with
  | object ps => exact absurd rfl (h ps)
  | _ => rfl

theorem mergePatch_eq_mergePatch_nil (h : ∀ ms, target ≠ .object ms) (patch : Json) :
    patch.mergePatch target = patch.mergePatch (.object []) := by
  have hnone : target.membersOrNone = [] := by
    cases target with
    | object ms => exact absurd rfl (h ms)
    | _ => rfl
  cases patch with
  | object ps => rw [mergePatch, mergePatch, hnone, membersOrNone]
  | _ => rfl

theorem get?_mergePatch_of_not_mem (h : key ∉ ps.keys) (target : Json) :
    ((object ps).mergePatch target).get? key = target.get? key := by
  rw [mergePatch, get?, find?_mergeMembers_of_not_mem h, find?_membersOrNone]

theorem get?_mergePatch_of_mem (hps : ps.keys.Nodup) (h : (key, p) ∈ ps) (target : Json) :
    ((object ps).mergePatch target).get? key = p.patched (target.get? key) := by
  rw [mergePatch, get?, find?_mergeMembers_of_mem hps h, find?_membersOrNone]

/-- **A patch has no effect the second time.**  The induction is on the patch: a member that it
mentions is already as the patch for it leaves it. -/
theorem mergePatch_mergePatch (hp : patch.Canonical) (ht : target.Canonical) :
    patch.mergePatch (patch.mergePatch target) = patch.mergePatch target := by
  induction patch using ind generalizing target with
  | null | bool | number | string | array => rfl
  | object ps ih =>
    have houtcome := hp.mergePatch ht
    rw [mergePatch] at houtcome ⊢
    rw [mergePatch, membersOrNone, mergeMembers_eq_self houtcome.self]
    rintro ⟨key, p⟩ hmem
    rw [find?_mergeMembers_of_mem hp.self.nodup hmem, find?_membersOrNone]
    by_cases hnull : p = .null
    · rw [hnull]
      rfl
    · have hold : ((target.get? key).getD .null).Canonical := by
        cases hf : target.get? key with
        | none => exact .null
        | some v => exact ht.of_step? (step?_of_get? hf)
      have hagain : p.mergePatch (p.mergePatch ((target.get? key).getD .null)) =
          p.mergePatch ((target.get? key).getD .null) := ih _ hmem (hp.of_mem_members hmem) hold
      rw [patched_of_ne_null hnull, patched_of_ne_null hnull, Option.getD_some, hagain]

/-! ## Nested members -/

/-- The value that is reached from member to member. -/
def member? : List String → Json → Option Json
  | [], v => some v
  | key :: keys, v => (v.get? key).bind (member? keys)

/-- **A `null` in a patch** leaves no member, however deep in objects it stands. -/
theorem exists_member?_mergePatch (hp : patch.Distinct)
    (h : patch.member? (keys ++ [key]) = some .null) (target : Json) :
    ∃ ms, (patch.mergePatch target).member? keys = some (.object ms) ∧
      Members.find? key ms = none := by
  induction keys generalizing patch target with
  | nil =>
    obtain ⟨p, hget, hnull⟩ := Option.bind_eq_some_iff.mp h
    cases hnull
    cases patch with
    | object ps =>
      exact ⟨_, rfl, get?_mergePatch_of_mem hp.self (Members.mem_of_find? hget) target⟩
    | _ => cases hget
  | cons k keys ih =>
    obtain ⟨p, hget, hinside⟩ := Option.bind_eq_some_iff.mp h
    cases patch with
    | object ps =>
      have hmem := Members.mem_of_find? hget
      have hne : p ≠ .null := by
        rintro rfl
        cases keys <;> cases hinside
      have hstep := get?_mergePatch_of_mem hp.self hmem target
      rw [patched_of_ne_null hne] at hstep
      rw [member?, hstep, Option.bind_some]
      exact ih (hp.of_mem_members hmem) hinside _
    | _ => cases hget

/-! ## The rules -/

/-- **The rules of RFC 7386** for the outcome of a patch. -/
structure Merges (patch target outcome : Json) : Prop where
  /-- A patch that is no object takes the place of the target. -/
  replaced : (∀ ps, patch ≠ .object ps) → outcome = patch
  object : ∀ ps, patch = .object ps → ∃ ms, outcome = .object ms
  removed : ∀ key, patch.get? key = some .null → outcome.get? key = none
  /-- A member that is absent counts as `null`. -/
  changed : ∀ key p, patch.get? key = some p → p ≠ .null →
    outcome.get? key = some (p.mergePatch ((target.get? key).getD .null))
  kept : ∀ ps key, patch = .object ps → patch.get? key = none → outcome.get? key = target.get? key
  /-- A target that is no object, such as `null`, counts as an object without members. -/
  blank : (∀ ms, target ≠ .object ms) → outcome = patch.mergePatch (.object [])
  /-- No `null` of the patch becomes a member, at any depth of objects in it. -/
  cleared : ∀ keys key, patch.member? (keys ++ [key]) = some .null →
    ∃ ms, outcome.member? keys = some (.object ms) ∧ Members.find? key ms = none
  /-- The patch has no effect on its outcome. -/
  settled : patch.mergePatch outcome = outcome

/-- **A merge patch follows the rules**, whatever the patch and the target.  Both are canonical, as
all values are that were read: no key stands twice in an object, and the keys ascend. -/
theorem mergePatch_merges (hp : patch.Canonical) (ht : target.Canonical) :
    patch.Merges target (patch.mergePatch target) where
  replaced h := mergePatch_of_ne_object h target
  object := by
    rintro ps rfl
    exact ⟨_, rfl⟩
  removed key h := by
    cases patch with
    | object ps => exact get?_mergePatch_of_mem hp.self.nodup (Members.mem_of_find? h) target
    | _ => cases h
  changed key p h hne := by
    cases patch with
    | object ps =>
      rw [get?_mergePatch_of_mem hp.self.nodup (Members.mem_of_find? h), patched_of_ne_null hne]
    | _ => cases h
  kept := by
    rintro ps key rfl h
    exact get?_mergePatch_of_not_mem (Members.find?_eq_none_iff.mp h) target
  blank h := mergePatch_eq_mergePatch_nil h patch
  cleared _ _ h := exists_member?_mergePatch hp.distinct h target
  settled := mergePatch_mergePatch hp ht

/-- A schema of a price. -/
def price : Json :=
  .object [("currency", .object [("const", .string "EUR")]), ("type", .string "number")]

/-- Removes a member, changes one and makes one out of nothing, with a `null` in each place. -/
def pricePatch : Json :=
  .object [("currency", .object [("const", .null), ("enum", .array [.null, .string "EUR"])]),
    ("range", .object [("max", .null), ("min", ofNat 0)]), ("type", .null)]

example : pricePatch.mergePatch price =
    .object [("currency", .object [("enum", .array [.null, .string "EUR"])]),
      ("range", .object [("min", ofNat 0)])] := rfl

theorem mergePatch_merges_price : pricePatch.Canonical ∧ price.Canonical ∧
    pricePatch.Merges price (pricePatch.mergePatch price) := by
  have hp : pricePatch.Canonical := canonical_sorted pricePatch
  have ht : price.Canonical := canonical_sorted price
  exact ⟨hp, ht, mergePatch_merges hp ht⟩

end MappingGraph.Json
