import MappingGraph.Proofs.Schema.Resolve

/-!
# A located place

While segments are followed, the schema that is reached and its pointer are kept side by side, and
each move (to a property, into a branch, into the items, after a reference) changes both.
`Schema.Located` says that they agree in the end: looking the pointer up, by its text, gives the
schema, and the schema is no reference, for then it would have been followed.

A reference is the only move that does not go down.  It takes over the pointer as somebody wrote it,
so there is nothing to show about escapes in it; but for this the text must be kept as it is, and so
must every token that was written on the way (`Pointer.Plain`).
-/

set_option autoImplicit false

namespace MappingGraph.Schema

variable {root : Json} {place p q b c d : Place} {name : String} {way : List Pointer}
  {segment : Segment} {segments : List Segment}

/-! ## Pointers that can be written -/

theorem plain_property? (h : place.pointer.Plain) (hp : property? name place = some p) :
    p.pointer.Plain := by
  obtain ⟨_, _, _, _, rfl⟩ := property?_eq_some_iff.mp hp
  exact (h.child _).child _

theorem plain_followReferences {looks : Nat} (hp : p.pointer.Plain)
    (h : followReferences root looks p = some q) : q.pointer.Plain := by
  induction looks generalizing p with
  | zero => cases h
  | succ looks ih =>
    rw [followReferences] at h
    split at h
    · rw [← Option.some.inj h]
      exact hp
    · obtain ⟨pointer, hpointer, h⟩ := Option.bind_eq_some_iff.mp h
      obtain ⟨schema, _, h⟩ := Option.bind_eq_some_iff.mp h
      refine ih (p := ⟨pointer, schema⟩) ?_ h
      rw [reference?] at hpointer
      split at hpointer
      · exact Pointer.plain_of_ofText? hpointer
      · cases hpointer

theorem plain_deref (hp : p.pointer.Plain) (h : deref root p = some q) : q.pointer.Plain :=
  plain_followReferences hp h

theorem plain_of_mem_branches (h : place.pointer.Plain) (hb : b ∈ branches root place) :
    b.pointer.Plain := by
  obtain ⟨keyword, _, hb⟩ := List.mem_flatMap.mp hb
  rw [branchesUnder] at hb
  split at hb
  · obtain ⟨⟨x, i⟩, _, hb⟩ := List.mem_filterMap.mp hb
    exact plain_deref ((h.child keyword).child _) hb
  · exact absurd hb List.not_mem_nil

theorem First.plain (h : First root name way c d) (hc : c.pointer.Plain) : d.pointer.Plain := by
  induction h with
  | own h => exact plain_property? hc h
  | branch _ hb _ _ _ ih =>
    exact ih (plain_of_mem_branches hc (hb ▸ List.mem_append_right _ List.mem_cons_self))

/-! ## References are followed to their end -/

theorem getString?_followReferences {looks : Nat} (h : followReferences root looks p = some q) :
    q.schema.getString? "$ref" = none := by
  induction looks generalizing p with
  | zero => cases h
  | succ looks ih =>
    rw [followReferences] at h
    split at h
    · next hnone =>
      rw [← Option.some.inj h]
      exact hnone
    · obtain ⟨pointer, _, h⟩ := Option.bind_eq_some_iff.mp h
      obtain ⟨schema, _, h⟩ := Option.bind_eq_some_iff.mp h
      exact ih h

/-! ## Places that are located -/

/-- What holds of a place that segments lead to. -/
structure Located (root : Json) (place : Place) : Prop where
  valid : place.Valid root
  plain : place.pointer.Plain
  settled : place.schema.getString? "$ref" = none

theorem located_deref (hvalid : p.Valid root) (hplain : p.pointer.Plain)
    (h : deref root p = some q) : Located root q :=
  ⟨valid_deref hvalid h, plain_deref hplain h, getString?_followReferences h⟩

theorem located_enterItems (hp : Located root p) (h : enterItems root p = some q) :
    Located root q := by
  rw [enterItems] at h
  split at h
  · next items hitems => exact located_deref (valid_child hp.valid hitems) (hp.plain.child _) h
  · rw [← Option.some.inj h]
    exact hp

theorem located_land (hvalid : d.Valid root) (hplain : d.pointer.Plain)
    (h : land root segment d = some q) : Located root q := by
  obtain ⟨p, hp, h⟩ := Option.bind_eq_some_iff.mp h
  have hlocated := located_deref hvalid hplain hp
  split at h
  · exact located_enterItems hlocated h
  · rw [← Option.some.inj h]
    exact hlocated

/-- **One segment further down.** -/
theorem located_step (hc : Located root c) (h : step root c segment = some q) : Located root q := by
  obtain ⟨d, hfirst, h⟩ := (step_eq_some_iff hc.valid).mp h
  exact located_land (hfirst.valid hc.valid) (hfirst.plain hc.plain) h

/-- **Any number of segments further down.** -/
theorem located_foldlM_step (hc : Located root c) (h : segments.foldlM (step root) c = some q) :
    Located root q := by
  induction segments generalizing c with
  | nil =>
    rw [← Option.some.inj h]
    exact hc
  | cons segment segments ih =>
    rw [List.foldlM_cons] at h
    obtain ⟨p, hp, h⟩ := Option.bind_eq_some_iff.mp h
    exact ih (located_step hc hp) h

theorem located_of_locate? (h : locate? segments root = some place) : Located root place := by
  obtain ⟨start, hstart, h⟩ := Option.bind_eq_some_iff.mp h
  exact located_foldlM_step (located_deref (valid_root root) Pointer.plain_root hstart) h

end MappingGraph.Schema
