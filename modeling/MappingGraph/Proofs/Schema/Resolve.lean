import MappingGraph.Proofs.Schema.Search

/-!
# Which handles name something in a schema

A handle should name something in a schema if its segments can be followed from the root, each of
them to some declaration of its name.  `Schema.Accepts` says so.  A segment of the search, however,
commits to the first declaration (`Schema.First`), and when the segments after it lead nowhere from
there the search does not come back for another.  `Schema.FirstAccepts` is the same walk with only
first declarations allowed.

The main result compares the three: what the search accepts is what `Schema.FirstAccepts` says, so a
handle that is accepted should be, and the handles that are lost are those that can be followed by
later declarations only.  Such a handle is easily made, with two branches of a union that describe
one property differently.
-/

set_option autoImplicit false

namespace MappingGraph.Schema

variable {root : Json} {segment : Segment} {segments : List Segment} {c d : Place}

/-! ## Walks -/

/-- Where a segment goes on from a declaration of its name: to the schema that stands there, and
from that of an array into its items. -/
def land (root : Json) (segment : Segment) (declared : Place) : Option Place := do
  let property ← deref root declared
  if segment.array then enterItems root property else some property

/-- The segments can be followed from a schema, each to a declaration of the given kind. -/
inductive Walk (root : Json) (declared : String → Place → Place → Prop) :
    List Segment → Place → Prop
  | nil (c : Place) : Walk root declared [] c
  | cons {segment : Segment} {segments : List Segment} {c d p : Place}
    (hd : declared segment.name c d) (hp : land root segment d = some p)
    (h : Walk root declared segments p) : Walk root declared (segment :: segments) c

/-- The schema is not null, the handle can be read, and its segments can be followed from the root
of the schema, each to a declaration of the given kind. -/
def AcceptsBy (declared : Json → String → Place → Place → Prop) (handle : String) (schema : Json) :
    Prop :=
  schema.isNull = false ∧ ∃ segments, Handle.parse? handle = some segments ∧
    ∃ start, deref schema ⟨.root, schema⟩ = some start ∧
      Walk schema (declared schema) segments start

/-- The handle can be followed. -/
def Accepts (handle : String) (schema : Json) : Prop := AcceptsBy Declares handle schema

/-- The handle can be followed by first declarations. -/
def FirstAccepts (handle : String) (schema : Json) : Prop :=
  AcceptsBy (fun root name c d ↦ First root name [c.pointer] c d) handle schema

theorem Walk.mono {declared declared' : String → Place → Place → Prop}
    (h : ∀ name c d, declared name c d → declared' name c d)
    (hw : Walk root declared segments c) : Walk root declared' segments c := by
  induction hw with
  | nil c => exact .nil c
  | cons hd hp _ ih => exact .cons (h _ _ _ hd) hp ih

theorem accepts_of_firstAccepts {handle : String} {schema : Json}
    (h : FirstAccepts handle schema) : Accepts handle schema := by
  obtain ⟨hnull, segments, hparse, start, hstart, hw⟩ := h
  exact ⟨hnull, segments, hparse, start, hstart,
    hw.mono fun name c d hfirst ↦ hfirst.declaresOff.declares⟩

/-! ## The search follows first declarations -/

theorem step_eq (root : Json) (c : Place) (segment : Segment) :
    step root c segment = (findProperty root segment.name c).bind (land root segment) := rfl

theorem valid_land (hd : d.Valid root) (h : land root segment d = some c) : c.Valid root := by
  obtain ⟨p, hp, h⟩ := Option.bind_eq_some_iff.mp h
  have hvalid := valid_deref hd hp
  split at h
  · exact valid_enterItems hvalid h
  · rw [← Option.some.inj h]
    exact hvalid

/-- A declaration is a valid place. -/
theorem First.valid {name : String} {way : List Pointer} (h : First root name way c d)
    (hc : c.Valid root) : d.Valid root := by
  induction h with
  | own h => exact valid_property? hc h
  | branch _ hb _ _ _ ih =>
    refine ih ((placed_start hc).of_mem_branches ?_).valid
    exact hb ▸ List.mem_append_right _ List.mem_cons_self

/-- A segment leads from the first declaration of its name to where it goes on. -/
theorem step_eq_some_iff {p : Place} (hc : c.Valid root) : step root c segment = some p ↔
    ∃ d, First root segment.name [c.pointer] c d ∧ land root segment d = some p := by
  rw [step_eq, Option.bind_eq_some_iff]
  exact exists_congr fun d ↦ and_congr_left' (findProperty_eq_some_iff hc)

/-- **Segments are located by first declarations.**  The induction is on the segments; a schema that
is reached is a valid place, so that the next search can start there. -/
theorem isSome_foldlM_step_iff (hc : c.Valid root) :
    (segments.foldlM (step root) c).isSome ↔
      Walk root (fun name c d ↦ First root name [c.pointer] c d) segments c := by
  induction segments generalizing c with
  | nil => exact iff_of_true rfl (.nil c)
  | cons segment segments ih =>
    rw [List.foldlM_cons]
    constructor
    · intro h
      obtain ⟨last, h⟩ := Option.isSome_iff_exists.mp h
      obtain ⟨p, hp, h⟩ := Option.bind_eq_some_iff.mp h
      obtain ⟨d, hfirst, hp⟩ := (step_eq_some_iff hc).mp hp
      refine .cons hfirst hp ((ih (valid_land (hfirst.valid hc) hp)).mp ?_)
      rw [h]
      rfl
    · rintro (_ | ⟨hfirst, hp, hw⟩)
      rw [(step_eq_some_iff hc).mpr ⟨_, hfirst, hp⟩]
      exact (ih (valid_land (hfirst.valid hc) hp)).mpr hw

theorem hasHandle_iff_firstAccepts (handle : String) (schema : Json) :
    hasHandle handle schema = true ↔ FirstAccepts handle schema := by
  rw [hasHandle, Bool.and_eq_true, Bool.not_eq_true', FirstAccepts, AcceptsBy]
  refine and_congr_right fun _ ↦ ?_
  cases Handle.parse? handle with
  | none => simp
  | some segments =>
    rw [Option.bind_some, locate?]
    cases hstart : deref schema ⟨.root, schema⟩ with
    | none => simp
    | some start =>
      have hw := @isSome_foldlM_step_iff schema segments start
        (valid_deref (valid_root schema) hstart)
      simpa using hw

/-- **A handle that is accepted can be followed, and it is accepted exactly if it can be followed by
first declarations.**  So nothing is lost just when whatever can be followed can be followed by
these. -/
theorem hasHandle_spec (handle : String) (schema : Json) :
    (hasHandle handle schema = true → Accepts handle schema) ∧
      (hasHandle handle schema = true ↔ FirstAccepts handle schema) ∧
      ((hasHandle handle schema = true ↔ Accepts handle schema) ↔
        (Accepts handle schema → FirstAccepts handle schema)) := by
  have hfirst := hasHandle_iff_firstAccepts handle schema
  have hsound : FirstAccepts handle schema → Accepts handle schema := accepts_of_firstAccepts
  refine ⟨fun h ↦ hsound (hfirst.mp h), hfirst, ?_⟩
  rw [hfirst]
  exact ⟨fun h ↦ h.mpr, fun h ↦ ⟨hsound, h⟩⟩

/-- A schema with one property. -/
def withProperty (name : String) (schema : Json) : Json :=
  .object [("properties", .object [(name, schema)])]

/-- A union whose branches both have a property `a`, with one property each inside. -/
def overlappingUnion : Json :=
  .object [("oneOf", .array
    [withProperty "a" (withProperty "x" (.object [])),
     withProperty "a" (withProperty "y" (.object []))])]

/-- The property `y` is inside the second `a`, but only the first `a` is looked into. -/
theorem hasHandle_ne_accepts_overlappingUnion :
    ¬ (hasHandle "$.a.y" overlappingUnion = true ↔ Accepts "$.a.y" overlappingUnion) := by
  have hbranches : branches overlappingUnion ⟨.root, overlappingUnion⟩ =
      [⟨⟨["oneOf", "0"]⟩, withProperty "a" (withProperty "x" (.object []))⟩,
       ⟨⟨["oneOf", "1"]⟩, withProperty "a" (withProperty "y" (.object []))⟩] := rfl
  have hdeclared : Declares overlappingUnion "a" ⟨.root, overlappingUnion⟩
      ⟨⟨["oneOf", "1", "properties", "a"]⟩, withProperty "y" (.object [])⟩ := by
    refine ⟨⟨⟨["oneOf", "1"]⟩, withProperty "a" (withProperty "y" (.object []))⟩, .single ?_, rfl⟩
    rw [hbranches]
    exact List.mem_cons_of_mem _ List.mem_cons_self
  have hinside : Declares overlappingUnion "y"
      ⟨⟨["oneOf", "1", "properties", "a"]⟩, withProperty "y" (.object [])⟩
      ⟨⟨["oneOf", "1", "properties", "a", "properties", "y"]⟩, .object []⟩ := ⟨_, .refl, rfl⟩
  have haccepts : Accepts "$.a.y" overlappingUnion :=
    ⟨rfl, [⟨"a", false⟩, ⟨"y", false⟩], rfl, _, rfl,
      .cons hdeclared rfl (.cons hinside rfl (.nil _))⟩
  intro h
  have hfound := h.mpr haccepts
  have hlost : hasHandle "$.a.y" overlappingUnion = false := rfl
  rw [hlost] at hfound
  cases hfound

end MappingGraph.Schema
