import MappingGraph.Proofs.Json.Change
import MappingGraph.Proofs.Schema.SelfContained

/-!
# Schemas after a change to properties

When the properties of one schema in a document change, is it still found in the same way?  The
search looks into many schemas before it gets there, and each of them has another value now if the
change is inside of it.  `Schema.Revision` states the situation, and `Schema.moved` takes a place of
the old document to the same pointer in the new one.

What a search meets stands either on the way to the change or aside of it.  Aside nothing is
different (`Schema.Revision.moved_eq_self`).  On the way the value is different only further down,
so it has the same members, and under a keyword as many branches (`Schema.Revision.branches_moved`).
Nothing on the way looks at the properties that changed, since those of a schema on the way lie
beside the way or are passed by name.  Hence all steps of the search are taken as before
(`Schema.Revision.first_moved`), and so are the segments (`Schema.Revision.locate?_moved`).

This needs a document without references, because a reference could lead from anywhere into the
change.
-/

set_option autoImplicit false

namespace MappingGraph.Schema

/-- The second document is the first with the schema at the end of the path changed, in its
properties only. -/
structure Revision (change : Json → Json) (path : List String) (root root' : Json) : Prop where
  changed : root.modifySteps? change path = some root'
  kept : ∀ (v : Json) (key : String), key ≠ "properties" → (change v).get? key = v.get? key

/-- The place at the same pointer in another document. -/
def moved (root' : Json) (a : Place) : Place :=
  ⟨a.pointer, (root'.at? a.pointer).getD a.schema⟩

variable {change : Json → Json} {path ts : List String} {root root' : Json}
  {a b c d p : Place} {name keyword : String} {way : List Pointer} {segment : Segment}
  {segments : List Segment}

theorem moved_eq {x : Json} (h : root'.at? a.pointer = some x) :
    moved root' a = ⟨a.pointer, x⟩ := by
  rw [moved, h, Option.getD_some]

namespace Revision

/-! ## On the way and aside -/

/-- On the way the schema is changed further down. -/
theorem exists_moved (h : Revision change path root root') (ha : a.Valid root)
    (hpath : a.pointer.tokens ++ ts = path) : ∃ x, a.schema.modifySteps? change ts = some x ∧
      root'.at? a.pointer = some x ∧ moved root' a = ⟨a.pointer, x⟩ := by
  obtain ⟨x, y, hx, hy, hfollow⟩ := Json.exists_of_modifySteps?_append (hpath ▸ h.changed)
  obtain rfl : a.schema = x := Option.some.inj (ha.symm.trans hx)
  exact ⟨y, hy, hfollow, moved_eq hfollow⟩

theorem valid_moved (h : Revision change path root root') (ha : a.Valid root)
    (hon : a.pointer.tokens <+: path) : (moved root' a).Valid root' := by
  obtain ⟨ts, hts⟩ := hon
  obtain ⟨x, -, hat, hmoved⟩ := h.exists_moved ha hts
  rw [hmoved]
  exact hat

/-- Aside nothing is different. -/
theorem moved_eq_self (h : Revision change path root root') (ha : a.Valid root)
    (hoff : ¬ a.pointer.tokens <+: path) (hlong : a.pointer.tokens.length ≤ path.length) :
    moved root' a = a := by
  have hpath : ¬ path <+: a.pointer.tokens := fun hpath ↦
    hoff (hpath.eq_of_length_le hlong ▸ List.prefix_rfl)
  exact moved_eq ((Json.follow?_modifySteps?_of_apart h.changed hpath hoff).trans ha)

/-- No member is added, in particular no reference. -/
theorem get?_moved_eq_none (h : Revision change path root root') (ha : a.Valid root) {key : String}
    (hkey : key ≠ "properties") (hlong : a.pointer.tokens.length ≤ path.length)
    (hnone : a.schema.get? key = none) : (moved root' a).schema.get? key = none := by
  by_cases hon : a.pointer.tokens <+: path
  · obtain ⟨ts, hts⟩ := hon
    obtain ⟨x, hx, -, hmoved⟩ := h.exists_moved ha hts
    rw [hmoved]
    exact Json.get?_eq_none_of_modifySteps? hx (fun v hv ↦ (h.kept v key hkey).trans hv) hnone
  · rw [h.moved_eq_self ha hon hlong, hnone]

/-! ## Branches -/

/-- The branches under one keyword, if it lists as many as before. -/
theorem branchesUnder_moved (h : Revision change path root root') (hc : SelfContained root c)
    (hlong : c.pointer.tokens.length + 2 ≤ path.length) {x : Json}
    (hx : root'.at? c.pointer = some x) {listed listed' : List Json}
    (hlisted : c.schema.get? keyword = some (.array listed))
    (hlisted' : x.get? keyword = some (.array listed')) (hlen : listed'.length = listed.length) :
    branchesUnder root' ⟨c.pointer, x⟩ keyword =
      (branchesUnder root c keyword).map (moved root') := by
  have hmoved : ∀ i (hi : i < listed'.length),
      moved root' (branchAt c.pointer keyword (listed[i], i)) =
        branchAt c.pointer keyword (listed'[i], i) := fun i hi ↦
    moved_eq (a := branchAt c.pointer keyword (listed[i], i))
      (valid_branchAt (c := ⟨c.pointer, x⟩) hx hlisted' (List.getElem?_eq_getElem hi))
  have hplain := get?_ref_of_mem_listed hc.refFree hlisted
  have hplain' : ∀ y ∈ listed', y.get? "$ref" = none := by
    intro y hy
    obtain ⟨i, hi, rfl⟩ := List.mem_iff_getElem.mp hy
    have hitem := List.getElem?_eq_getElem (hlen ▸ hi)
    have hnone := h.get?_moved_eq_none (valid_branchAt hc.valid hlisted hitem) (by decide)
      (by rw [tokens_branchAt]; simpa using hlong) (hplain _ (List.mem_of_getElem? hitem))
    rw [hmoved i hi] at hnone
    exact hnone
  rw [branchesUnder_eq (p := ⟨c.pointer, x⟩) hlisted' hplain',
    branchesUnder_eq hlisted hplain]
  refine List.ext_getElem (by simpa using hlen) fun i hi _ ↦ ?_
  rw [List.length_map, List.length_zipIdx] at hi
  simp [hmoved i hi]

/-- **The branches of a schema** are those from before as long as the change is inside of one of
them. -/
theorem branches_moved (h : Revision change path root root') (hc : SelfContained root c)
    (hb : b ∈ branches root c) (hon : b.pointer.tokens <+: path) :
    branches root' (moved root' c) = (branches root c).map (moved root') := by
  obtain ⟨k, _, listed, i, x, hlisted, _, rfl⟩ := exists_of_mem_branches hc.refFree hb
  obtain ⟨ts, hts⟩ := hon
  rw [tokens_branchAt, List.append_assoc] at hts
  obtain ⟨c', hc', hat, hmoved⟩ := h.exists_moved hc.valid hts
  have hlong : c.pointer.tokens.length + 2 ≤ path.length := by
    rw [← hts]
    simp
  rw [hmoved, branches, branches, List.map_flatMap]
  refine List.flatMap_congr fun keyword _ ↦ ?_
  by_cases hk : keyword = k
  · subst hk
    obtain ⟨y, hy, hget⟩ := Json.get?_of_modifySteps?_self hc' hlisted
    obtain ⟨listed', rfl, hlen⟩ := Json.exists_array_of_modifySteps? hy
    exact h.branchesUnder_moved hc hlong hat hlisted hget hlen
  · have hget := Json.get?_of_modifySteps?_of_ne hc' hk
    by_cases hother : ∃ other, c.schema.get? keyword = some (.array other)
    · obtain ⟨other, hother⟩ := hother
      exact h.branchesUnder_moved hc hlong hat hother (hget.trans hother) rfl
    · have hnone := not_exists.mp hother
      rw [branchesUnder_eq_nil hnone, branchesUnder_eq_nil (p := ⟨c.pointer, c'⟩) fun other ho ↦
        hnone other (hget.symm.trans ho)]
      rfl

/-- Of the branches of a schema one is on the way, and the others are aside. -/
theorem eq_or_moved_eq_self (h : Revision change path root root') (hc : SelfContained root c)
    (ha : a ∈ branches root c) (hb : b ∈ branches root c) (hon : b.pointer.tokens <+: path) :
    a = b ∨ moved root' a = a := by
  have havalid := (hc.branch ha).valid
  have hbvalid := (hc.branch hb).valid
  obtain ⟨k, _, _, i, x, _, _, rfl⟩ := exists_of_mem_branches hc.refFree ha
  obtain ⟨l, _, _, j, y, _, _, rfl⟩ := exists_of_mem_branches hc.refFree hb
  rw [tokens_branchAt] at hon
  by_cases haon : (branchAt c.pointer k (x, i)).pointer.tokens <+: path
  · rw [tokens_branchAt] at haon
    have hbelow := List.prefix_of_prefix_length_le haon hon (by simp)
    have htokens := List.append_cancel_left (hbelow.eq_of_length_le (by simp))
    obtain ⟨rfl, hij⟩ := List.cons.inj htokens
    refine .inl (eq_of_pointer_eq havalid hbvalid ?_)
    rw [branchAt, branchAt, Pointer.item, Pointer.item, (List.cons.inj hij).1]
  · refine .inr (h.moved_eq_self havalid haon ?_)
    rw [tokens_branchAt]
    simpa using hon.length_le

/-! ## Declarations -/

theorem property?_moved (h : Revision change path root root') (hc : c.Valid root)
    (hd : property? name c = some d) (hon : d.pointer.tokens <+: path) :
    property? name (moved root' c) = some (moved root' d) := by
  obtain ⟨ts, hts⟩ := hon
  rw [tokens_property? hd, List.append_assoc] at hts
  obtain ⟨properties, schema, hproperties, hschema, rfl⟩ := property?_eq_some_iff.mp hd
  obtain ⟨c', hc', hat, hmoved⟩ := h.exists_moved hc hts
  obtain ⟨properties', hproperties', hget⟩ := Json.get?_of_modifySteps?_self hc' hproperties
  obtain ⟨schema', _, hget'⟩ := Json.get?_of_modifySteps?_self hproperties' hschema
  have hvalid : (⟨c.pointer, c'⟩ : Place).Valid root' := hat
  have hdvalid := valid_child (valid_child hvalid hget) hget'
  rw [hmoved, moved_eq (a := ⟨_, schema⟩) hdvalid]
  exact property?_eq_some_iff.mpr ⟨properties', schema', hget, hget', rfl⟩

theorem property?_congr {x : Json} (h : x.get? "properties" = c.schema.get? "properties")
    (hnone : property? name c = none) : property? name ⟨c.pointer, x⟩ = none := by
  rw [property?] at hnone ⊢
  rw [h]
  exact hnone

/-- What a schema does not declare itself, it does not after a change inside of a branch. -/
theorem property?_moved_eq_none (h : Revision change path root root') (hc : SelfContained root c)
    (hb : b ∈ branches root c) (hon : b.pointer.tokens <+: path)
    (hnone : property? name c = none) : property? name (moved root' c) = none := by
  obtain ⟨k, hk, _, i, x, _, _, rfl⟩ := exists_of_mem_branches hc.refFree hb
  obtain ⟨ts, hts⟩ := hon
  rw [tokens_branchAt, List.append_assoc] at hts
  obtain ⟨c', hc', _, hmoved⟩ := h.exists_moved hc.valid hts
  have hne : "properties" ≠ k := by
    rintro rfl
    revert hk
    decide
  rw [hmoved]
  exact property?_congr (Json.get?_of_modifySteps?_of_ne hc' hne) hnone

/-- **The first declaration stays the first.**  The branches before the one on the way stand aside,
so there is still no declaration in them. -/
theorem first_moved (h : Revision change path root root') (hd : First root name way c d)
    (hc : SelfContained root c) (hon : d.pointer.tokens <+: path) :
    First root' name way (moved root' c) (moved root' d) := by
  induction hd with
  | own hd => exact .own (h.property?_moved hc.valid hd hon)
  | @branch way b c d earlier later hnone hb hearlier hnew hd ih =>
    have hmem : b ∈ branches root c := hb ▸ List.mem_append_right _ List.mem_cons_self
    have hbself := hc.branch hmem
    have hbon := (hd.tokens_prefix hbself).trans hon
    have hbranches := h.branches_moved hc hmem hbon
    rw [hb, List.map_append, List.map_cons] at hbranches
    refine .branch (h.property?_moved_eq_none hc hmem hbon hnone) hbranches ?_ hnew (ih hbself hon)
    intro a' ha' hoff e he
    obtain ⟨a, ha, rfl⟩ := List.mem_map.mp ha'
    have hamem : a ∈ branches root c := hb ▸ List.mem_append_left _ ha
    rcases h.eq_or_moved_eq_self hc hamem hmem hbon with rfl | hself
    · exact hearlier a ha hnew _ hd.declaresOff.of_cons
    · rw [hself] at hoff he
      exact hearlier a ha hoff e (he.congr (hc.branch hamem).refFree root)

/-! ## Segments -/

theorem deref_moved (h : Revision change path root root') (hd : SelfContained root d)
    (hlong : d.pointer.tokens.length ≤ path.length) :
    deref root' (moved root' d) = some (moved root' d) :=
  deref_of_get?_eq_none
    (h.get?_moved_eq_none hd.valid (by decide) hlong hd.refFree.get?_ref) root'

theorem enterItems_moved (h : Revision change path root root') (hd : SelfContained root d)
    (hp : enterItems root d = some p) (hon : p.pointer.tokens <+: path)
    (hdon : d.pointer.tokens <+: path) :
    enterItems root' (moved root' d) = some (moved root' p) := by
  cases hitems : d.schema.get? "items" with
  | none =>
    rw [enterItems, hitems] at hp
    rw [enterItems, h.get?_moved_eq_none hd.valid (by decide) hdon.length_le hitems,
      ← Option.some.inj hp]
  | some items =>
    have hiself : SelfContained root ⟨d.pointer.child "items", items⟩ :=
      ⟨valid_child hd.valid hitems, hd.refFree.of_get? hitems⟩
    have hp' : deref root ⟨d.pointer.child "items", items⟩ = some p := by
      rw [enterItems, hitems] at hp
      exact hp
    rw [deref_of_get?_eq_none hiself.refFree.get?_ref] at hp'
    obtain rfl := Option.some.inj hp'
    have hderef := h.deref_moved hiself hon.length_le
    obtain ⟨ts, hts⟩ := hon
    rw [Pointer.tokens_child, List.append_assoc] at hts
    obtain ⟨d', hd', hat, hmoved⟩ := h.exists_moved hd.valid hts
    obtain ⟨items', _, hget⟩ := Json.get?_of_modifySteps?_self hd' hitems
    have hvalid : (⟨d.pointer, d'⟩ : Place).Valid root' := hat
    have hivalid := valid_child hvalid hget
    rw [moved_eq (a := ⟨_, items⟩) hivalid] at hderef ⊢
    rw [hmoved, enterItems, hget]
    exact hderef

theorem land_moved (h : Revision change path root root') (hd : SelfContained root d)
    (hp : land root segment d = some p) (hon : p.pointer.tokens <+: path) :
    land root' segment (moved root' d) = some (moved root' p) := by
  have hdon := (hd.land hp).2.trans hon
  rw [land_eq hd.refFree.get?_ref] at hp
  rw [land, h.deref_moved hd hdon.length_le, Option.bind_eq_bind, Option.bind_some]
  split at hp
  · next harray =>
    rw [if_pos harray]
    exact h.enterItems_moved hd hp hon hdon
  · next harray => rw [if_neg harray, ← Option.some.inj hp]

/-- **One segment** leads to the same pointer. -/
theorem step_moved (h : Revision change path root root') (hc : SelfContained root c)
    (hp : step root c segment = some p) (hon : p.pointer.tokens <+: path) :
    step root' (moved root' c) segment = some (moved root' p) := by
  obtain ⟨d, hfirst, hp⟩ := (step_eq_some_iff hc.valid).mp hp
  have hdself := hc.first hfirst
  have hdon := (hdself.land hp).2.trans hon
  have hcon := (hfirst.tokens_prefix hc).trans hdon
  exact (step_eq_some_iff (h.valid_moved hc.valid hcon)).mpr
    ⟨_, h.first_moved hfirst hc hdon, h.land_moved hdself hp hon⟩

/-- **All segments** lead to the same pointer, provided that the last one is on the way. -/
theorem foldlM_step_moved (h : Revision change path root root') (hc : SelfContained root c)
    (hp : segments.foldlM (step root) c = some p) (hon : p.pointer.tokens <+: path) :
    segments.foldlM (step root') (moved root' c) = some (moved root' p) := by
  induction segments generalizing c with
  | nil =>
    cases hp
    rfl
  | cons segment segments ih =>
    rw [List.foldlM_cons] at hp ⊢
    obtain ⟨q, hq, hp⟩ := Option.bind_eq_some_iff.mp hp
    have hqself := (hc.step hq).1
    have hqon := (hqself.foldlM_step hp).2.trans hon
    rw [h.step_moved hc hq hqon]
    exact ih hqself hp

/-- **A place is located at the same pointer** when something changes there or further down. -/
theorem locate?_moved (h : Revision change path root root') (hroot : root.RefFree)
    (hp : locate? segments root = some p) (hon : p.pointer.tokens <+: path) :
    locate? segments root' = some (moved root' p) := by
  have hself := selfContained_root hroot
  have hstart : moved root' ⟨.root, root⟩ = ⟨.root, root'⟩ := moved_eq (Json.at?_root root')
  have hderef := h.deref_moved hself (Nat.zero_le _)
  rw [hstart] at hderef
  rw [locate?, deref_of_get?_eq_none hroot.get?_ref, Option.bind_eq_bind, Option.bind_some] at hp
  rw [locate?, hderef, Option.bind_eq_bind, Option.bind_some, ← hstart]
  exact h.foldlM_step_moved hself hp hon

end Revision

end MappingGraph.Schema
