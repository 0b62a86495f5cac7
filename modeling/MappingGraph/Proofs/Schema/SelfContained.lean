import MappingGraph.Proofs.Json.Order
import MappingGraph.Proofs.Schema.Resolve

/-!
# Schemas without references

A schema without any `$ref` inside is self-contained: whatever is found in it stands in it, further
down.  So the way to it can be read off its pointer (`Schema.First.tokens_prefix`,
`Schema.SelfContained.tokens_prefix_of_step`), and what is declared in it does not depend on the
document around it (`Schema.DeclaresOff.congr`).  Neither is true of a schema with references.

The branches of such a schema stand just where they are listed; `Schema.branchAt` names the place by
the keyword and the number.
-/

set_option autoImplicit false

namespace MappingGraph

namespace Json

variable {v x : Json} {xs : List Json} {key : String}

/-- No object inside of the value has a member `$ref`. -/
abbrev RefFree (v : Json) : Prop := v.AllObjects fun ms ↦ Members.find? "$ref" ms = none

theorem RefFree.get?_ref (h : v.RefFree) : v.get? "$ref" = none := by
  cases h with
  | object hms _ => exact hms
  | _ => rfl

theorem RefFree.of_mem_items (h : (array xs).RefFree) (hx : x ∈ xs) : x.RefFree :=
  AllObjects.of_mem_items h hx

theorem RefFree.of_get? (h : v.RefFree) (hx : v.get? key = some x) : x.RefFree := by
  cases v with
  | object ms => exact h.of_mem_members (Members.mem_of_find? hx)
  | _ => cases hx

theorem RefFree.getD_get? (h : v.RefFree) (key : String) : ((v.get? key).getD .null).RefFree := by
  cases hx : v.get? key with
  | none => exact .null
  | some x => exact h.of_get? hx

theorem refFree_singleton (hkey : key ≠ "$ref") (h : v.RefFree) : (object [(key, v)]).RefFree :=
  .object (Members.find?_eq_none_iff.mpr fun hmem ↦ hkey (List.mem_singleton.mp hmem).symm)
    (List.forall_mem_singleton.mpr h)

end Json

namespace Schema

variable {root : Json} {b c d p : Place} {name keyword : String} {listed : List Json}
  {way : List Pointer} {segment : Segment} {segments : List Segment}

theorem deref_of_get?_eq_none (h : p.schema.get? "$ref" = none) (root : Json) :
    deref root p = some p := by
  rw [deref, referenceLimit, followReferences, Json.getString?, h]
  rfl

/-- A schema at its pointer, with no reference inside. -/
structure SelfContained (root : Json) (place : Place) : Prop where
  valid : place.Valid root
  refFree : place.schema.RefFree

theorem selfContained_root (h : root.RefFree) : SelfContained root ⟨.root, root⟩ :=
  ⟨valid_root root, h⟩

/-! ## Branches -/

/-- The place of an item under a keyword; the item is given with its number. -/
def branchAt (p : Pointer) (keyword : String) (x : Json × Nat) : Place :=
  ⟨(p.child keyword).item x.2, x.1⟩

theorem tokens_branchAt (p : Pointer) (keyword : String) (x : Json × Nat) :
    (branchAt p keyword x).pointer.tokens = p.tokens ++ [keyword, Text.natText x.2] := by
  rw [branchAt, Pointer.item, Pointer.tokens_child, Pointer.tokens_child, List.append_assoc]
  rfl

theorem valid_branchAt {x : Json} {i : Nat} (hc : c.Valid root)
    (hlisted : c.schema.get? keyword = some (.array listed)) (hx : listed[i]? = some x) :
    (branchAt c.pointer keyword (x, i)).Valid root :=
  valid_item (p := ⟨_, .array listed⟩) (valid_child hc hlisted) hx

/-- The branches under a keyword stand where they are listed if none is a reference. -/
theorem branchesUnder_eq (hlisted : p.schema.get? keyword = some (.array listed))
    (h : ∀ x ∈ listed, x.get? "$ref" = none) (root : Json) :
    branchesUnder root p keyword = listed.zipIdx.map (branchAt p.pointer keyword) := by
  rw [branchesUnder, hlisted, ← List.filterMap_eq_map]
  refine List.filterMap_congr fun x hx ↦ deref_of_get?_eq_none ?_ root
  exact h _ (List.fst_mem_of_mem_zipIdx hx)

theorem branchesUnder_eq_nil (h : ∀ listed, p.schema.get? keyword ≠ some (.array listed))
    (root : Json) : branchesUnder root p keyword = [] := by
  rw [branchesUnder]
  split
  · next listed hlisted => exact absurd hlisted (h listed)
  · rfl

theorem get?_ref_of_mem_listed (hc : c.schema.RefFree)
    (hlisted : c.schema.get? keyword = some (.array listed)) :
    ∀ x ∈ listed, x.get? "$ref" = none :=
  fun _ hx ↦ ((hc.of_get? hlisted).of_mem_items hx).get?_ref

theorem branches_congr (hc : c.schema.RefFree) (root root' : Json) :
    branches root c = branches root' c := by
  refine List.flatMap_congr fun keyword _ ↦ ?_
  by_cases h : ∃ listed, c.schema.get? keyword = some (.array listed)
  · obtain ⟨listed, hlisted⟩ := h
    have hplain := get?_ref_of_mem_listed hc hlisted
    rw [branchesUnder_eq hlisted hplain, branchesUnder_eq hlisted hplain]
  · have hnone := not_exists.mp h
    rw [branchesUnder_eq_nil hnone, branchesUnder_eq_nil hnone]

theorem exists_of_mem_branches (hc : c.schema.RefFree) (hb : b ∈ branches root c) :
    ∃ keyword ∈ branchKeywords, ∃ listed i x, c.schema.get? keyword = some (.array listed) ∧
      listed[i]? = some x ∧ b = branchAt c.pointer keyword (x, i) := by
  obtain ⟨keyword, hkeyword, hb⟩ := List.mem_flatMap.mp hb
  by_cases h : ∃ listed, c.schema.get? keyword = some (.array listed)
  · obtain ⟨listed, hlisted⟩ := h
    rw [branchesUnder_eq hlisted (get?_ref_of_mem_listed hc hlisted)] at hb
    obtain ⟨⟨x, i⟩, hx, rfl⟩ := List.mem_map.mp hb
    exact ⟨keyword, hkeyword, listed, i, x, hlisted, List.mem_zipIdx_iff_getElem?.mp hx, rfl⟩
  · rw [branchesUnder_eq_nil (not_exists.mp h)] at hb
    exact absurd hb List.not_mem_nil

theorem refFree_of_mem_branches (hc : c.schema.RefFree) (hb : b ∈ branches root c) :
    b.schema.RefFree := by
  obtain ⟨_, _, listed, i, x, hlisted, hx, rfl⟩ := exists_of_mem_branches hc hb
  exact (hc.of_get? hlisted).of_mem_items (List.mem_of_getElem? hx)

theorem SelfContained.branch (hc : SelfContained root c) (hb : b ∈ branches root c) :
    SelfContained root b :=
  ⟨((placed_start hc.valid).of_mem_branches hb).valid, refFree_of_mem_branches hc.refFree hb⟩

/-! ## Declarations -/

theorem tokens_property? (h : property? name c = some d) :
    d.pointer.tokens = c.pointer.tokens ++ ["properties", name] := by
  obtain ⟨_, _, _, _, rfl⟩ := property?_eq_some_iff.mp h
  rw [Pointer.tokens_child, Pointer.tokens_child, List.append_assoc]
  rfl

theorem SelfContained.property? (hc : SelfContained root c) (hd : property? name c = some d) :
    SelfContained root d := by
  refine ⟨valid_property? hc.valid hd, ?_⟩
  obtain ⟨properties, schema, hproperties, hschema, rfl⟩ := property?_eq_some_iff.mp hd
  exact (hc.refFree.of_get? hproperties).of_get? hschema

/-- What is declared does not depend on the document. -/
theorem DeclaresOff.congr (hc : c.schema.RefFree) (h : DeclaresOff root name way c d)
    (root' : Json) : DeclaresOff root' name way c d := by
  obtain ⟨c', hway, hd⟩ := h
  refine ⟨c', ?_, hd⟩
  clear hd
  induction hway using Relation.ReflTransGen.head_induction_on with
  | refl => exact .refl
  | head hstep _ ih =>
    refine .head ⟨?_, hstep.2⟩ (ih (refFree_of_mem_branches hc hstep.1))
    rw [branches_congr hc root' root]
    exact hstep.1

theorem SelfContained.first (hc : SelfContained root c) (h : First root name way c d) :
    SelfContained root d := by
  induction h with
  | own h => exact hc.property? h
  | branch _ hb _ _ _ ih => exact ih (hc.branch (hb ▸ List.mem_append_right _ List.mem_cons_self))

/-- **A declaration stands below** the schema it is found in. -/
theorem First.tokens_prefix (h : First root name way c d) (hc : SelfContained root c) :
    c.pointer.tokens <+: d.pointer.tokens := by
  induction h with
  | own h =>
    rw [tokens_property? h]
    exact List.prefix_append _ _
  | branch _ hb _ _ _ ih =>
    have hmem := hb ▸ List.mem_append_right _ List.mem_cons_self
    refine List.IsPrefix.trans ?_ (ih (hc.branch hmem))
    obtain ⟨keyword, _, _, i, x, _, _, rfl⟩ := exists_of_mem_branches hc.refFree hmem
    rw [tokens_branchAt]
    exact List.prefix_append _ _

/-! ## Segments -/

theorem land_eq (h : d.schema.get? "$ref" = none) (root : Json) (segment : Segment) :
    land root segment d = if segment.array then enterItems root d else some d := by
  rw [land, deref_of_get?_eq_none h]
  rfl

/-- A segment ends at the declaration or at the items below it. -/
theorem eq_or_items_of_land (hd : d.schema.RefFree) (h : land root segment d = some p) :
    p = d ∨ ∃ items, d.schema.get? "items" = some items ∧ p = ⟨d.pointer.child "items", items⟩ := by
  rw [land_eq hd.get?_ref] at h
  split at h
  · rw [enterItems] at h
    split at h
    · next items hitems =>
      rw [deref_of_get?_eq_none (hd.of_get? hitems).get?_ref] at h
      exact .inr ⟨items, hitems, (Option.some.inj h).symm⟩
    · exact .inl (Option.some.inj h).symm
  · exact .inl (Option.some.inj h).symm

namespace SelfContained

theorem land (hd : SelfContained root d) (h : land root segment d = some p) :
    SelfContained root p ∧ d.pointer.tokens <+: p.pointer.tokens := by
  rcases eq_or_items_of_land hd.refFree h with rfl | ⟨items, hitems, rfl⟩
  · exact ⟨hd, List.prefix_rfl⟩
  · refine ⟨⟨valid_child hd.valid hitems, hd.refFree.of_get? hitems⟩, ?_⟩
    rw [Pointer.tokens_child]
    exact List.prefix_append _ _

/-- **A segment leads further down.** -/
theorem step (hc : SelfContained root c) (h : step root c segment = some p) :
    SelfContained root p ∧ c.pointer.tokens <+: p.pointer.tokens := by
  obtain ⟨d, hfirst, hp⟩ := (step_eq_some_iff hc.valid).mp h
  obtain ⟨hpself, hfurther⟩ := (hc.first hfirst).land hp
  exact ⟨hpself, (hfirst.tokens_prefix hc).trans hfurther⟩

/-- **Segments lead further down.** -/
theorem foldlM_step (hc : SelfContained root c)
    (h : segments.foldlM (Schema.step root) c = some p) :
    SelfContained root p ∧ c.pointer.tokens <+: p.pointer.tokens := by
  induction segments generalizing c with
  | nil =>
    cases h
    exact ⟨hc, List.prefix_rfl⟩
  | cons segment segments ih =>
    rw [List.foldlM_cons] at h
    obtain ⟨q, hq, h⟩ := Option.bind_eq_some_iff.mp h
    obtain ⟨hqself, hfurther⟩ := hc.step hq
    obtain ⟨hpself, hfurther'⟩ := ih hqself h
    exact ⟨hpself, hfurther.trans hfurther'⟩

end SelfContained

theorem selfContained_of_locate? (hroot : root.RefFree) (h : locate? segments root = some p) :
    SelfContained root p := by
  rw [locate?, deref_of_get?_eq_none hroot.get?_ref, Option.bind_eq_bind, Option.bind_some] at h
  exact ((selfContained_root hroot).foldlM_step h).1

end Schema

end MappingGraph
