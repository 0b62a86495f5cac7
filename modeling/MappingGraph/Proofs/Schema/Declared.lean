import MappingGraph.Proofs.Json.MergePatch
import MappingGraph.Proofs.Schema.Overlay
import MappingGraph.Proofs.Schema.Revision

/-!
# Declaring a property by an overlay

An overlay whose patch is `Schema.withProperty name x` declares a property of the schema at its
path.  This is a change to the properties of that schema, whatever it was before: an object gets
them as a member, or another member inside of them, and anything else becomes an object that has
nothing else.  So the path leads to the same pointer afterwards (`Schema.Revision.locate?_moved`),
and one segment more leads to the property, since what a schema declares itself is found before its
branches are looked at.  `Schema.exists_declaredBy` says all of it.
-/

set_option autoImplicit false

namespace MappingGraph

namespace Json

variable {patch target v : Json} {ts : List String} {ms : Members}

/-- A patch that mentions no reference makes none. -/
theorem get?_mergePatch_eq_none {key : String} (hp : patch.get? key = none)
    (ht : target.get? key = none) : (patch.mergePatch target).get? key = none := by
  cases patch with
  | object ps => rw [get?_mergePatch_of_not_mem (Members.find?_eq_none_iff.mp hp), ht]
  | _ => rfl

/-- A patch of one member sets that member. -/
theorem get?_mergePatch_singleton (key : String) (h : patch ≠ .null) (target : Json) :
    ((object [(key, patch)]).mergePatch target).get? key =
      some (patch.mergePatch ((target.get? key).getD .null)) := by
  have hkeys : (Members.keys [(key, patch)]).Nodup := List.nodup_singleton key
  rw [get?_mergePatch_of_mem hkeys List.mem_cons_self, patched_of_ne_null h]

theorem ne_null_of_follow? (h : v.follow? ts = some (.object ms)) : v ≠ .null := by
  rintro rfl
  cases ts <;> cases h

end Json

namespace Schema

variable {schema root root' x : Json} {place c p : Place} {name : String} {path : List String}
  {segments : List Segment}

/-- The property in a schema, `null` if it has none. -/
def propertyOrNull (name : String) (schema : Json) : Json :=
  (((schema.get? "properties").getD .null).get? name).getD .null

theorem get?_ref_propertyOrNull (h : schema.RefFree) (name : String) :
    (propertyOrNull name schema).get? "$ref" = none :=
  ((h.getD_get? "properties").getD_get? name).get?_ref

/-- Declaring a property touches no other member of a schema. -/
theorem revision_withProperty
    (h : root.modifySteps? (withProperty name x).mergePatch path = some root') :
    Revision (withProperty name x).mergePatch path root root' := by
  refine ⟨h, fun v key hkey ↦ Json.get?_mergePatch_of_not_mem ?_ v⟩
  exact fun hmem ↦ hkey (List.mem_singleton.mp hmem)

/-- The property is there. -/
theorem property?_withProperty (hx : x ≠ .null) (c : Place) :
    property? name ⟨c.pointer, (withProperty name x).mergePatch c.schema⟩ =
      some ⟨(c.pointer.child "properties").child name,
        x.mergePatch (propertyOrNull name c.schema)⟩ := by
  have hne : Json.object [(name, x)] ≠ .null := nofun
  have hproperties := Json.get?_mergePatch_singleton "properties" hne c.schema
  have hproperty := Json.get?_mergePatch_singleton name hx
    ((c.schema.get? "properties").getD .null)
  exact property?_eq_some_iff.mpr ⟨_, _, hproperties, hproperty, rfl⟩

theorem locate?_append (h : locate? segments root = some p) (more : List Segment) :
    locate? (segments ++ more) root = more.foldlM (step root) p := by
  obtain ⟨start, hstart, h⟩ := Option.bind_eq_some_iff.mp h
  rw [locate?, hstart, Option.bind_eq_bind, Option.bind_some, List.foldlM_append, h]
  rfl

/-- A declaration of the schema itself is where one segment more leads. -/
theorem step_of_property? {d : Place} (hc : c.Valid root) (hd : property? name c = some d)
    (href : d.schema.get? "$ref" = none) : step root c ⟨name, false⟩ = some d := by
  refine (step_eq_some_iff hc).mpr ⟨d, .own hd, ?_⟩
  rw [land_eq href]
  rfl

/-- An overlay that is alone changes the schema at its place. -/
theorem applyAll_singleton {o : Overlay} {after : Json} (hnull : schema ≠ .null)
    (hplace : o.place? schema = some place)
    (hafter : schema.modify? place.pointer o.patch.mergePatch = some after) :
    Overlay.applyAll [o] o.side schema = after := by
  have hside : Overlay.onSide o.side [o] = [o] := by simp [Overlay.onSide]
  have hleaves : Overlay.leaves [o] o.side schema = false := by
    rw [Overlay.leaves, Json.isNull_eq_false hnull, hside]
    rfl
  obtain ⟨after', -, hafter', happly⟩ := Overlay.change?_of_place? hplace
  rw [Overlay.applyAll_eq_foldl hleaves, hside, List.foldl_cons, List.foldl_nil, happly]
  exact Option.some.inj (hafter'.symm.trans hafter)

/-- What it comes to that an overlay declares a property of the schema at the end of segments. -/
structure DeclaredBy (segments : List Segment) (place : Place) (name : String)
    (x before after : Json) : Prop where
  /-- The overlay does it, on whatever side and however its path is written. -/
  applied : ∀ side path, Handle.parse? path = some segments →
    Overlay.applyAll [⟨side, path, withProperty name x⟩] side before = after
  modified : before.modify? place.pointer (withProperty name x).mergePatch = some after
  /-- The segments lead to the same pointer as before. -/
  located : locate? segments after =
    some ⟨place.pointer, (withProperty name x).mergePatch place.schema⟩
  /-- One segment more leads to the property. -/
  declared : locate? (segments ++ [⟨name, false⟩]) after =
    some ⟨(place.pointer.child "properties").child name,
      x.mergePatch (propertyOrNull name place.schema)⟩
  /-- Its handle is accepted. -/
  accepted : ∀ handle, Handle.parse? handle = some (segments ++ [⟨name, false⟩]) →
    hasHandle handle after = true

/-- **A property that an overlay declares can be found**, and what could be found before the overlay
at its path is still found there.  The schema has no references inside, and the property is none
itself. -/
theorem exists_declaredBy (hnull : schema ≠ .null) (hfree : schema.RefFree)
    (hplace : locate? segments schema = some place) (name : String) (hx : x ≠ .null)
    (href : x.get? "$ref" = none) : ∃ after, DeclaredBy segments place name x schema after := by
  have hself := selfContained_of_locate? hfree hplace
  obtain ⟨after, hafter⟩ := Json.exists_modifySteps? hself.valid (withProperty name x).mergePatch
  have hat : after.at? place.pointer = some ((withProperty name x).mergePatch place.schema) :=
    Json.follow?_modifySteps? hafter hself.valid
  have hlocated := (revision_withProperty hafter).locate?_moved hfree hplace List.prefix_rfl
  rw [moved_eq hat] at hlocated
  have hdeclared : locate? (segments ++ [⟨name, false⟩]) after =
      some ⟨(place.pointer.child "properties").child name,
        x.mergePatch (propertyOrNull name place.schema)⟩ := by
    have hnone := Json.get?_mergePatch_eq_none href (get?_ref_propertyOrNull hself.refFree name)
    have hvalid : Place.Valid after
        ⟨place.pointer, (withProperty name x).mergePatch place.schema⟩ := hat
    rw [locate?_append hlocated, List.foldlM_cons,
      step_of_property? hvalid (property?_withProperty hx place) hnone]
    rfl
  refine ⟨after, fun side path hpath ↦ ?_, hafter, hlocated, hdeclared, fun handle hhandle ↦ ?_⟩
  · have ho : (⟨side, path, withProperty name x⟩ : Overlay).place? schema = some place := by
      rw [Overlay.place?, hpath, Option.bind_some, hplace]
    exact applyAll_singleton hnull ho hafter
  · rw [hasHandle, Json.isNull_eq_false (Json.ne_null_of_follow? hat), hhandle, Option.bind_some,
      hdeclared]
    rfl

/-- The lines of an order, each of which is a union with another union in it. -/
def orderLines : Json :=
  .object [("properties", .object [("lines", .object [("items", .object
    [("anyOf", .array [withProperty "sku" (.bool true),
      .object [("oneOf", .array [withProperty "price" (.bool true)])]])])])])]

theorem refFree_withProperty (hname : name ≠ "$ref") (h : x.RefFree) :
    (withProperty name x).RefFree :=
  Json.refFree_singleton (by decide) (Json.refFree_singleton hname h)

theorem refFree_orderLines : orderLines.RefFree := by
  have hprice : (Json.object [("oneOf", .array [withProperty "price" (.bool true)])]).RefFree :=
    Json.refFree_singleton (by decide) (.array (List.forall_mem_singleton.mpr
      (refFree_withProperty (by decide) (.bool true))))
  have hsku : (withProperty "sku" (.bool true)).RefFree :=
    refFree_withProperty (by decide) (.bool true)
  have hbranches := List.forall_mem_cons.mpr ⟨hsku, List.forall_mem_singleton.mpr hprice⟩
  exact refFree_withProperty (by decide) (Json.refFree_singleton (by decide)
    (Json.refFree_singleton (by decide) (.array hbranches)))

/-- The price, in a branch of a branch. -/
def pricePlace : Place :=
  ⟨⟨["properties", "lines", "items", "anyOf", "1", "oneOf", "0", "properties", "price"]⟩,
    .bool true⟩

/-- A price, which was anything so far, gets a currency. -/
theorem exists_declaredBy_orderLines : orderLines ≠ .null ∧ orderLines.RefFree ∧
    locate? [⟨"lines", true⟩, ⟨"price", false⟩] orderLines = some pricePlace ∧
    ∃ after, DeclaredBy [⟨"lines", true⟩, ⟨"price", false⟩] pricePlace "currency"
      (withProperty "code" (.bool true)) orderLines after := by
  have hnull : orderLines ≠ .null := nofun
  have hplace : locate? [⟨"lines", true⟩, ⟨"price", false⟩] orderLines = some pricePlace := rfl
  have hcode : withProperty "code" (.bool true) ≠ .null := nofun
  exact ⟨hnull, refFree_orderLines, hplace,
    exists_declaredBy hnull refFree_orderLines hplace "currency" hcode rfl⟩

end Schema

end MappingGraph
