import MappingGraph.Proofs.Json.Change
import MappingGraph.Proofs.Schema.Located
import MappingGraph.Schema.Overlay

/-!
# What overlays do to a schema

An overlay locates its place and hands on no more than the text of the pointer, by which the place
is looked up a second time in order to be changed.  `Schema.FindsAgain` says that this cannot go
wrong: the text leads to the schema that was located.  So an overlay is passed over only if its path
cannot be read or leads nowhere.

What is changed then is the schema at that pointer, by the patch, and nothing that stands aside
(`Overlay.Changes`).  A row of overlays does this one after the other, each on the outcome of those
before it, so a path may lead elsewhere than it did in the schema of the start.  What holds of all
of them together is `Overlay.InOrder`.
-/

set_option autoImplicit false

namespace MappingGraph

/-- Neither of the pointers leads to the other or further inside. -/
def Pointer.Apart (p q : Pointer) : Prop := ¬ p.tokens <+: q.tokens ∧ ¬ q.tokens <+: p.tokens

theorem Json.isNull_eq_false {v : Json} (h : v ≠ .null) : v.isNull = false := by
  cases v with
  | null => exact absurd rfl h
  | _ => rfl

/-- The value at a pointer that is given as a text. -/
def Json.atText? (text : String) (v : Json) : Option Json :=
  (Pointer.ofText? text).bind fun p ↦ v.at? p

/-- The value with the part changed that is at a pointer given as a text. -/
def Json.modifyText? (text : String) (change : Json → Json) (v : Json) : Option Json :=
  (Pointer.ofText? text).bind fun p ↦ v.modify? p change

/-- The schema as the overlay changes it, found by the text of the pointer; `none` if it is passed
over. -/
def Overlay.change? (schema : Json) (o : Overlay) : Option Json :=
  (o.place? schema).bind fun place ↦ schema.modifyText? place.pointer.text o.patch.mergePatch

namespace Schema

variable {root : Json} {place : Place}

theorem Located.modifyText? (h : Located root place) (change : Json → Json) :
    root.modifyText? place.pointer.text change = root.modify? place.pointer change := by
  rw [Json.modifyText?, Pointer.ofText?_text h.plain, Option.bind_some]

theorem Located.exists_modify? (h : Located root place) (change : Json → Json) :
    ∃ after, root.modify? place.pointer change = some after :=
  Json.exists_modifySteps? h.valid change

end Schema

namespace Overlay

variable {schema before after : Json} {o : Overlay} {overlays : List Overlay} {place : Place}

theorem located_of_place? (h : o.place? schema = some place) : Schema.Located schema place := by
  obtain ⟨segments, _, h⟩ := Option.bind_eq_some_iff.mp h
  exact Schema.located_of_locate? h

theorem place?_eq_none_iff : o.place? schema = none ↔ ∀ segments,
    Handle.parse? o.path = some segments → Schema.locate? segments schema = none := by
  rw [place?, Option.bind_eq_none_iff]

theorem change?_of_place? (h : o.place? schema = some place) :
    ∃ after, o.change? schema = some after ∧
      schema.modify? place.pointer o.patch.mergePatch = some after ∧ apply schema o = after := by
  obtain ⟨after, hafter⟩ := (located_of_place? h).exists_modify? o.patch.mergePatch
  refine ⟨after, ?_, hafter, ?_⟩
  · rw [change?, h, Option.bind_some, (located_of_place? h).modifyText?, hafter]
  · rw [apply, h]
    dsimp only
    rw [hafter, Option.getD_some]

theorem apply_of_place?_eq_none (h : o.place? schema = none) : apply schema o = schema := by
  rw [apply, h]

theorem apply_eq_getD_change? (schema : Json) (o : Overlay) :
    apply schema o = (o.change? schema).getD schema := by
  cases h : o.place? schema with
  | none => rw [apply_of_place?_eq_none h, change?, h, Option.bind_none, Option.getD_none]
  | some place =>
    obtain ⟨after, hchange, -, happly⟩ := change?_of_place? h
    rw [hchange, happly, Option.getD_some]

theorem change?_eq_none_iff : o.change? schema = none ↔ o.place? schema = none := by
  cases h : o.place? schema with
  | none => simp [change?, h]
  | some place =>
    obtain ⟨after, hchange, -, -⟩ := change?_of_place? h
    simp [hchange]

/-- For what reason an overlay is passed over. -/
theorem change?_eq_none_iff_path : o.change? schema = none ↔ Handle.parse? o.path = none ∨
    ∃ segments, Handle.parse? o.path = some segments ∧ Schema.locate? segments schema = none := by
  rw [change?_eq_none_iff, place?_eq_none_iff]
  cases Handle.parse? o.path <;> simp

theorem applyAll_eq_foldl {side : Side} (h : leaves overlays side schema = false) :
    applyAll overlays side schema = (onSide side overlays).foldl apply schema := by
  rw [applyAll, h]
  rfl

end Overlay

/-! ## What is located is found again -/

/-- What comes of handing on a located place as the text of its pointer. -/
structure Schema.FindsAgain (root : Json) : Prop where
  /-- At the pointer stands the schema that was located. -/
  found : ∀ segments place, locate? segments root = some place →
    root.atText? place.pointer.text = some place.schema
  /-- It does not refer to another. -/
  settled : ∀ segments place, locate? segments root = some place →
    place.schema.getString? "$ref" = none
  changeable : ∀ segments place change, locate? segments root = some place →
    (root.modifyText? place.pointer.text change).isSome
  /-- An overlay is passed over for its path and for nothing else. -/
  passedOver : ∀ o : Overlay, o.change? root = none ↔ Handle.parse? o.path = none ∨
    ∃ segments, Handle.parse? o.path = some segments ∧ locate? segments root = none
  /-- A row of overlays changes the schema wherever it does not pass one over. -/
  applied : ∀ overlays side, Overlay.leaves overlays side root = false →
    Overlay.applyAll overlays side root =
      (Overlay.onSide side overlays).foldl (fun schema o ↦ (o.change? schema).getD schema) root

/-- **What is located is found again** by the text of its pointer, in every document and for all
segments, whatever characters the names have and wherever references lead. -/
theorem Schema.findsAgain (root : Json) : FindsAgain root where
  found segments place h := by
    have hlocated := located_of_locate? h
    rw [Json.atText?, Pointer.ofText?_text hlocated.plain]
    exact hlocated.valid
  settled segments place h := (located_of_locate? h).settled
  changeable segments place change h := by
    have hlocated := located_of_locate? h
    obtain ⟨after, hafter⟩ := hlocated.exists_modify? change
    rw [hlocated.modifyText?, hafter]
    rfl
  passedOver o := Overlay.change?_eq_none_iff_path
  applied overlays side h := by
    rw [Overlay.applyAll_eq_foldl h, funext₂ Overlay.apply_eq_getD_change?]

/-- The pointer of a property whose name has both characters that are escaped. -/
example : (Schema.locate? [⟨"a/b~", false⟩]
    (.object [("properties", .object [("a/b~", .object [])])])).map (·.pointer.text) =
    some "/properties/a~1b~0" := rfl

namespace Overlay

/-! ## What an overlay changes -/

variable {schema before after : Json} {o : Overlay} {overlays : List Overlay} {place : Place}

/-- **What one overlay makes of a schema.** -/
inductive Changes (o : Overlay) (before : Json) : Json → Prop
  /-- The schema at the place is patched, and nothing that stands aside changes. -/
  | patched {segments : List Segment} {place : Place} {after : Json}
    (hparse : Handle.parse? o.path = some segments)
    (hplace : Schema.locate? segments before = some place)
    (hold : before.at? place.pointer = some place.schema)
    (hnew : after.at? place.pointer = some (o.patch.mergePatch place.schema))
    (hframe : ∀ q : Pointer, q.Apart place.pointer → after.at? q = before.at? q) :
    Changes o before after
  | passedOver (h : ∀ segments, Handle.parse? o.path = some segments →
    Schema.locate? segments before = none) : Changes o before before

/-- One of the overlays changes the schema at the place when it is its turn. -/
inductive Lands : List Overlay → Json → Place → Prop
  | here {o : Overlay} {overlays : List Overlay} {schema : Json} {place : Place}
    (h : o.place? schema = some place) : Lands (o :: overlays) schema place
  | later {o : Overlay} {overlays : List Overlay} {schema : Json} {place : Place}
    (h : Lands overlays (apply schema o) place) : Lands (o :: overlays) schema place

theorem at?_apply_of_apart (h : o.place? schema = some place) {q : Pointer}
    (hq : q.Apart place.pointer) : (apply schema o).at? q = schema.at? q := by
  obtain ⟨after, -, hmodify, happly⟩ := change?_of_place? h
  rw [happly]
  exact Json.follow?_modifySteps?_of_apart hmodify hq.2 hq.1

/-- **One step.** -/
theorem changes_apply (before : Json) (o : Overlay) : Changes o before (apply before o) := by
  cases h : o.place? before with
  | none =>
    rw [apply_of_place?_eq_none h]
    exact .passedOver (place?_eq_none_iff.mp h)
  | some place =>
    obtain ⟨after, -, hmodify, happly⟩ := change?_of_place? h
    have hvalid := (located_of_place? h).valid
    obtain ⟨segments, hparse, hplace⟩ := Option.bind_eq_some_iff.mp h
    refine .patched hparse hplace hvalid ?_ fun q hq ↦ at?_apply_of_apart h hq
    rw [happly]
    exact Json.follow?_modifySteps? hmodify hvalid

/-- **All steps**: what stands aside of every place that is changed stays as it was. -/
theorem at?_foldl_apply {q : Pointer}
    (h : ∀ place, Lands overlays schema place → q.Apart place.pointer) :
    (overlays.foldl apply schema).at? q = schema.at? q := by
  induction overlays generalizing schema with
  | nil => rfl
  | cons o overlays ih =>
    rw [List.foldl_cons, ih fun place hplace ↦ h place (.later hplace)]
    cases hplace : o.place? schema with
    | none => rw [apply_of_place?_eq_none hplace]
    | some place => exact at?_apply_of_apart hplace (h place (.here hplace))

theorem onSide_eq_nil_iff {side : Side} :
    onSide side overlays = [] ↔ ∀ o ∈ overlays, o.side ≠ side := by
  simp [onSide, List.filter_eq_nil_iff]

/-- What a row of overlays does to the schema of a side. -/
structure InOrder (overlays : List Overlay) (side : Side) (schema : Json) : Prop where
  untouched : schema = .null ∨ (∀ o ∈ overlays, o.side ≠ side) →
    applyAll overlays side schema = schema
  /-- The overlays of the side are applied in their order, each to the outcome so far. -/
  fold : schema ≠ .null → applyAll overlays side schema =
    (overlays.filter fun o ↦ o.side = side).foldl apply schema
  step : ∀ before o, Changes o before (apply before o)
  /-- Nothing is changed that stands aside of all places where one of the overlays lands. -/
  frame : ∀ q : Pointer, (∀ place, Lands (onSide side overlays) schema place →
    q.Apart place.pointer) → (applyAll overlays side schema).at? q = schema.at? q

/-- **Overlays change what they address**, one after the other, and leave everything else as it
is. -/
theorem applyAll_inOrder (overlays : List Overlay) (side : Side) (schema : Json) :
    InOrder overlays side schema := by
  have hfold : schema ≠ .null →
      applyAll overlays side schema = (onSide side overlays).foldl apply schema := by
    intro hnull
    cases hleaves : leaves overlays side schema with
    | false => exact applyAll_eq_foldl hleaves
    | true =>
      rw [leaves, Json.isNull_eq_false hnull, Bool.false_or, List.isEmpty_iff] at hleaves
      rw [hleaves, List.foldl_nil, applyAll, leaves, hleaves, List.isEmpty_nil, Bool.or_true]
      rfl
  have huntouched : schema = .null ∨ (∀ o ∈ overlays, o.side ≠ side) →
      applyAll overlays side schema = schema := by
    rintro (rfl | h)
    · rfl
    · rw [applyAll, leaves, onSide_eq_nil_iff.mpr h, List.isEmpty_nil, Bool.or_true]
      rfl
  refine ⟨huntouched, hfold, changes_apply, fun q hq ↦ ?_⟩
  by_cases hnull : schema = .null
  · rw [huntouched (.inl hnull)]
  · rw [hfold hnull, at?_foldl_apply hq]

/-- The second overlay changes what the first one made; the path of the third leads nowhere. -/
example : applyAll
    [⟨.source, "$", .object [("properties", .object [("a", .object [])])]⟩,
      ⟨.source, "$.a", .bool true⟩, ⟨.source, "$.b", .bool false⟩] .source
    (.object [("properties", .bool false)]) =
    .object [("properties", .object [("a", .bool true)])] := rfl

end Overlay

end MappingGraph
