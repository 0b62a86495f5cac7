import Mathlib.Algebra.Order.BigOperators.Group.List
import Mathlib.Algebra.Order.Ring.Nat
import MappingGraph.Proofs.Json.Positions
import MappingGraph.Schema.Locate

/-!
# Places in a document

A search for a property meets schemas together with their pointers, and it goes by the pointers when
it remembers what it entered.  This is sound because a pointer tells what stands there
(`Place.Valid`), and it ends because there are only so many pointers to meet: those that lead from
the start of the search, or from a place that some `$ref` names, down into the schema there.
`Schema.Placed` says so of a place, `Schema.Placed.of_mem_branches` that the search stays among such
places, and `Schema.length_catalogue_le` bounds their number by the budget of the search.
-/

set_option autoImplicit false

namespace MappingGraph

/-- The pointer further down by some steps. -/
def Pointer.down (p : Pointer) (tokens : List String) : Pointer := tokens.foldl child p

theorem Pointer.down_append_singleton (p : Pointer) (ts : List String) (t : String) :
    p.down (ts ++ [t]) = (p.down ts).child t := by
  rw [down, List.foldl_append]
  rfl

/-- At the pointer of the place stands its schema. -/
def Place.Valid (root : Json) (place : Place) : Prop :=
  root.at? place.pointer = some place.schema

namespace Schema

variable {root : Json} {start place p q b : Place} {name key : String}

/-! ## Valid places -/

theorem valid_root (root : Json) : (⟨.root, root⟩ : Place).Valid root := Json.at?_root root

/-- Of the valid places, no two have one pointer. -/
theorem eq_of_pointer_eq (hp : p.Valid root) (hq : q.Valid root) (h : p.pointer = q.pointer) :
    p = q := by
  obtain ⟨pointer, schema⟩ := p
  obtain ⟨pointer', schema'⟩ := q
  obtain rfl : pointer = pointer' := h
  have hschema : schema = schema' := Option.some.inj (hp.symm.trans hq)
  rw [hschema]

theorem valid_child (h : place.Valid root) {x : Json} (hx : place.schema.get? key = some x) :
    (⟨place.pointer.child key, x⟩ : Place).Valid root := by
  rw [Place.Valid, Json.at?_child h, Json.step?_of_get? hx]

theorem valid_item {xs : List Json} (h : (⟨p.pointer, .array xs⟩ : Place).Valid root) {i : Nat}
    {x : Json} (hx : xs[i]? = some x) : (⟨p.pointer.item i, x⟩ : Place).Valid root := by
  rw [Place.Valid, Json.at?_item h, hx]

theorem property?_eq_some_iff : property? name place = some p ↔
    ∃ properties schema, place.schema.get? "properties" = some properties ∧
      properties.get? name = some schema ∧
      p = ⟨(place.pointer.child "properties").child name, schema⟩ := by
  constructor
  · intro hp
    obtain ⟨properties, hproperties, hp⟩ := Option.bind_eq_some_iff.mp hp
    obtain ⟨schema, hschema, hp⟩ := Option.bind_eq_some_iff.mp hp
    exact ⟨properties, schema, hproperties, hschema, (Option.some.inj hp).symm⟩
  · rintro ⟨properties, schema, hproperties, hschema, rfl⟩
    rw [property?, hproperties, Option.bind_eq_bind, Option.bind_some, hschema]
    rfl

theorem valid_property? (h : place.Valid root) (hp : property? name place = some p) :
    p.Valid root := by
  obtain ⟨properties, schema, hproperties, hschema, rfl⟩ := property?_eq_some_iff.mp hp
  exact @valid_child _ ⟨_, properties⟩ _ (valid_child h hproperties) _ hschema

/-! ## References -/

/-- The places that the references inside a document name. -/
def targets (root : Json) : List Place :=
  root.positions.filterMap fun position ↦ do
    let text ← position.2.getString? "$ref"
    let pointer ← reference? text
    let schema ← root.at? pointer
    return ⟨pointer, schema⟩

theorem valid_of_mem_targets (h : p ∈ targets root) : p.Valid root := by
  obtain ⟨position, _, h⟩ := List.mem_filterMap.mp h
  obtain ⟨text, _, h⟩ := Option.bind_eq_some_iff.mp h
  obtain ⟨pointer, _, h⟩ := Option.bind_eq_some_iff.mp h
  obtain ⟨schema, hschema, h⟩ := Option.bind_eq_some_iff.mp h
  rw [← Option.some.inj h]
  exact hschema

/-- **Following references** leads nowhere else or to a place that some reference names. -/
theorem followReferences_eq_or_mem {looks : Nat} (hp : p.Valid root)
    (h : followReferences root looks p = some q) : q = p ∨ q ∈ targets root := by
  induction looks generalizing p with
  | zero => cases h
  | succ looks ih =>
    rw [followReferences] at h
    split at h
    · exact .inl (Option.some.inj h).symm
    · next text htext =>
      obtain ⟨pointer, hpointer, h⟩ := Option.bind_eq_some_iff.mp h
      obtain ⟨schema, hschema, h⟩ := Option.bind_eq_some_iff.mp h
      obtain ⟨ts, hts⟩ := Json.exists_position_of_follow? hp
      have htarget : (⟨pointer, schema⟩ : Place) ∈ targets root := by
        refine List.mem_filterMap.mpr ⟨(ts, p.schema), hts, ?_⟩
        refine Option.bind_eq_some_iff.mpr ⟨text, htext, ?_⟩
        refine Option.bind_eq_some_iff.mpr ⟨pointer, hpointer, ?_⟩
        exact Option.bind_eq_some_iff.mpr ⟨schema, hschema, rfl⟩
      rcases ih (p := ⟨pointer, schema⟩) hschema h with rfl | hmem
      · exact .inr htarget
      · exact .inr hmem

theorem valid_deref (hp : p.Valid root) (h : deref root p = some q) : q.Valid root := by
  rcases followReferences_eq_or_mem hp h with rfl | hmem
  · exact hp
  · exact valid_of_mem_targets hmem

theorem valid_enterItems (hp : p.Valid root) (h : enterItems root p = some q) : q.Valid root := by
  rw [enterItems] at h
  split at h
  · next items hitems => exact valid_deref (valid_child hp hitems) h
  · rw [← Option.some.inj h]
    exact hp

/-! ## The places of a search -/

/-- A valid place below the start of a search or below a place that some reference names. -/
structure Placed (root : Json) (start place : Place) : Prop where
  valid : place.Valid root
  below : ∃ base ∈ start :: targets root, ∃ ts, place.pointer = base.pointer.down ts ∧
    (ts, place.schema) ∈ base.schema.positions

theorem placed_start (h : start.Valid root) : Placed root start start :=
  ⟨h, start, List.mem_cons_self, [], rfl, Json.nil_mem_positions _⟩

theorem placed_of_mem_targets (h : p ∈ targets root) : Placed root start p :=
  ⟨valid_of_mem_targets h, p, List.mem_cons_of_mem _ h, [], rfl, Json.nil_mem_positions _⟩

/-- One step further down. -/
theorem Placed.step (h : Placed root start place) {t : String} {x : Json}
    (hvalid : (⟨place.pointer.child t, x⟩ : Place).Valid root)
    (hx : ([t], x) ∈ place.schema.positions) :
    Placed root start ⟨place.pointer.child t, x⟩ := by
  obtain ⟨base, hbase, ts, hts, hpos⟩ := h.below
  refine ⟨hvalid, base, hbase, ts ++ [t], ?_, Json.mem_positions_append hpos hx⟩
  rw [Pointer.down_append_singleton, hts]

/-- **The branches of a place** of the search are places of the search. -/
theorem Placed.of_mem_branches (h : Placed root start place) (hb : b ∈ branches root place) :
    Placed root start b := by
  obtain ⟨keyword, _, hb⟩ := List.mem_flatMap.mp hb
  rw [branchesUnder] at hb
  split at hb
  · next listed hlisted =>
    obtain ⟨⟨x, i⟩, hi, hb⟩ := List.mem_filterMap.mp hb
    have hx : listed[i]? = some x := List.mem_zipIdx_iff_getElem?.mp hi
    have hlist : Placed root start ⟨place.pointer.child keyword, .array listed⟩ :=
      h.step (valid_child h.valid hlisted) (Json.mem_positions_of_get? hlisted)
    have hitem : Placed root start ⟨(place.pointer.child keyword).item i, x⟩ :=
      hlist.step (valid_item (p := ⟨_, .array listed⟩) hlist.valid hx)
        (Json.mem_positions_array hx (Json.nil_mem_positions x))
    rcases followReferences_eq_or_mem hitem.valid hb with rfl | hmem
    · exact hitem
    · exact placed_of_mem_targets hmem
  · exact absurd hb List.not_mem_nil

/-! ## How many there are -/

/-- The pointers of all places of a search. -/
def catalogue (root : Json) (start : Place) : List Pointer :=
  (start :: targets root).flatMap fun base ↦
    base.schema.positions.map fun position ↦ base.pointer.down position.1

theorem Placed.mem_catalogue (h : Placed root start place) :
    place.pointer ∈ catalogue root start := by
  obtain ⟨base, hbase, ts, hts, hpos⟩ := h.below
  exact List.mem_flatMap.mpr ⟨base, hbase, List.mem_map.mpr ⟨(ts, place.schema), hpos, hts.symm⟩⟩

theorem size_le_of_valid (h : place.Valid root) : place.schema.size ≤ root.size := by
  obtain ⟨ts, hts⟩ := Json.exists_position_of_follow? h
  exact Json.size_le_of_mem_positions hts

/-- **The budget of a search suffices** to meet every place once. -/
theorem length_catalogue_le (h : start.Valid root) :
    (catalogue root start).length ≤ searchBudget root := by
  have hbases : (start :: targets root).length ≤ root.size + 1 := by
    have htargets : (targets root).length ≤ root.positions.length := List.length_filterMap_le _ _
    rw [Json.length_positions] at htargets
    exact Nat.succ_le_succ htargets
  have hsizes : ∀ n ∈ (start :: targets root).map fun base ↦
      (base.schema.positions.map fun position ↦ base.pointer.down position.1).length,
      n ≤ root.size := by
    intro n hn
    obtain ⟨base, hbase, rfl⟩ := List.mem_map.mp hn
    rw [List.length_map, Json.length_positions]
    rcases List.mem_cons.mp hbase with rfl | hbase
    · exact size_le_of_valid h
    · exact size_le_of_valid (valid_of_mem_targets hbase)
  rw [catalogue, List.length_flatMap]
  calc _ ≤ (start :: targets root).length * root.size := by
        have hsum := List.sum_le_card_nsmul _ _ hsizes
        rw [List.length_map, nsmul_eq_mul, Nat.cast_id] at hsum
        exact hsum
    _ ≤ (root.size + 1) * (root.size + 1) := Nat.mul_le_mul hbases (Nat.le_succ _)
    _ = (root.size + 1) ^ 2 := (Nat.pow_two _).symm
    _ ≤ (root.size + 1) ^ 3 := Nat.pow_le_pow_right (Nat.succ_pos _) (by decide)

end Schema

end MappingGraph
