import Mathlib.Data.List.Forall2
import Mathlib.Data.String.Basic
import MappingGraph.Proofs.Json.Positions

/-!
# The order of members

Objects that are read have their members in ascending order of the keys, objects that are written in
the order in which they are to be printed.  `Json.sorted` brings the members of all objects in
ascending order, and `Json.Rearranges` says that two values differ in the order of members only.
Since every key stands once in each object of either, a member is found in the one as in the other
(`Json.Rearranges.find?`), whatever the order.

A value is canonical if the keys of all its objects ascend, and then sorting changes nothing
(`Json.sorted_of_canonical`).
-/

set_option autoImplicit false

namespace MappingGraph

/-- A list is left as it is if its members are. -/
theorem map_eq_self_iff {α : Type} {f : α → α} {xs : List α} :
    xs.map f = xs ↔ ∀ x ∈ xs, f x = x := by
  conv => lhs; rhs; rw [← List.map_id xs]
  exact List.map_inj_left

namespace Members

variable {ms ns : Members} {m : String × Json} {key : String} {value : Json}

/-- The keys of the members. -/
def keys (ms : Members) : List String := ms.map Prod.fst

/-- The keys ascend. -/
def Ascending (ms : Members) : Prop := ms.Pairwise fun a b ↦ a.1 < b.1

theorem Ascending.nodup (h : Ascending ms) : ms.keys.Nodup :=
  List.pairwise_map.mpr (h.imp fun hlt ↦ ne_of_lt hlt)

theorem Perm.keys (h : ms.Perm ns) : ms.keys.Perm ns.keys := h.map _

/-! ## Putting members in order -/

theorem mem_set (h : m ∈ set key value ms) : m = (key, value) ∨ m ∈ ms := by
  induction ms with
  | nil => exact .inl (List.mem_singleton.mp h)
  | cons n ms ih =>
    rw [set] at h
    split_ifs at h
    · exact (List.mem_cons.mp h).imp_right (List.mem_cons_of_mem n)
    · exact List.mem_cons.mp h
    · rcases List.mem_cons.mp h with rfl | h
      · exact .inr List.mem_cons_self
      · exact (ih h).imp_right (List.mem_cons_of_mem n)

theorem Ascending.set (h : Ascending ms) (key : String) (value : Json) :
    Ascending (set key value ms) := by
  induction ms with
  | nil => exact List.pairwise_singleton _ _
  | cons n ms ih =>
    obtain ⟨hn, hms⟩ := List.pairwise_cons.mp h
    rw [Members.set]
    split_ifs with heq hlt
    · exact List.pairwise_cons.mpr ⟨fun a ha ↦ heq ▸ hn a ha, hms⟩
    · refine List.pairwise_cons.mpr ⟨fun a ha ↦ ?_, h⟩
      rcases List.mem_cons.mp ha with rfl | ha
      · exact hlt
      · exact lt_trans hlt (hn a ha)
    · refine List.pairwise_cons.mpr ⟨fun a ha ↦ ?_, ih hms⟩
      rcases mem_set ha with rfl | ha
      · exact (lt_trichotomy n.1 key).resolve_right (not_or.mpr ⟨heq, hlt⟩)
      · exact hn a ha

/-- A new key brings one more member. -/
theorem perm_set (h : key ∉ ms.keys) : (set key value ms).Perm ((key, value) :: ms) := by
  induction ms with
  | nil => exact .refl _
  | cons n ms ih =>
    rw [keys, List.map_cons, List.mem_cons, not_or] at h
    rw [set, if_neg (Ne.symm h.1)]
    split
    · exact .refl _
    · exact ((ih h.2).cons n).trans (.swap _ _ _)

theorem ascending_ordered (ms : Members) : (ordered ms).Ascending := by
  suffices ∀ acc, Ascending acc → Ascending (ms.foldl (fun acc m ↦ set m.1 m.2 acc) acc) from
    this [] .nil
  induction ms with
  | nil => exact fun _ h ↦ h
  | cons m ms ih => exact fun acc h ↦ ih _ (h.set m.1 m.2)

theorem mem_of_mem_ordered (h : m ∈ ordered ms) : m ∈ ms := by
  suffices ∀ acc, m ∈ ms.foldl (fun acc m ↦ set m.1 m.2 acc) acc → m ∈ acc ∨ m ∈ ms from
    (this [] h).resolve_left List.not_mem_nil
  clear h
  induction ms with
  | nil => exact fun _ h ↦ .inl h
  | cons n ms ih =>
    intro acc h
    rcases ih _ h with h | h
    · exact (mem_set h).elim (fun h ↦ .inr (List.mem_cons.mpr (.inl h))) .inl
    · exact .inr (List.mem_cons_of_mem n h)

/-- **Ordering only rearranges** members with different keys. -/
theorem perm_ordered (h : ms.keys.Nodup) : (ordered ms).Perm ms := by
  suffices ∀ acc : Members, (acc ++ ms).keys.Nodup →
      (ms.foldl (fun acc m ↦ set m.1 m.2 acc) acc).Perm (acc ++ ms) from this [] h
  clear h
  induction ms with
  | nil => exact fun acc _ ↦ by rw [List.append_nil]; exact .refl _
  | cons m ms ih =>
    intro acc h
    have hnew : m.1 ∉ acc.keys := fun hmem ↦ by
      rw [keys, List.map_append, List.nodup_append] at h
      exact h.2.2 _ hmem _ List.mem_cons_self rfl
    have hset : (set m.1 m.2 acc ++ ms).Perm (acc ++ m :: ms) :=
      ((perm_set hnew).append_right ms).trans List.perm_middle.symm
    exact (ih _ ((Perm.keys hset).nodup_iff.mpr h)).trans hset

theorem Ascending.eq_of_perm (hms : ms.Ascending) (hns : ns.Ascending) (h : ms.Perm ns) :
    ms = ns :=
  h.eq_of_pairwise (fun _ _ _ _ hab hba ↦ absurd hba (not_lt_of_gt hab)) hms hns

theorem ordered_of_ascending (h : ms.Ascending) : ordered ms = ms :=
  (ascending_ordered ms).eq_of_perm h (perm_ordered h.nodup)

theorem ordered_eq_ordered_iff (hms : ms.keys.Nodup) (hns : ns.keys.Nodup) :
    ordered ms = ordered ns ↔ ms.Perm ns := by
  refine ⟨fun h ↦ ?_, fun h ↦ ?_⟩
  · exact (perm_ordered hms).symm.trans (h ▸ perm_ordered hns)
  · exact (ascending_ordered ms).eq_of_perm (ascending_ordered ns)
      (((perm_ordered hms).trans h).trans (perm_ordered hns).symm)

/-! ## Looking up -/

theorem find?_eq_none_iff : find? key ms = none ↔ key ∉ ms.keys := by
  induction ms with
  | nil => exact ⟨fun _ ↦ List.not_mem_nil, fun _ ↦ rfl⟩
  | cons n ms ih =>
    rw [find?, keys, List.map_cons, List.mem_cons, not_or]
    split
    · next h =>
      exact ⟨fun hnone ↦ absurd hnone (Option.some_ne_none _), fun hn ↦ absurd h.symm hn.1⟩
    · next h => exact ih.trans ⟨fun hn ↦ ⟨Ne.symm h, hn⟩, And.right⟩

/-- Among different keys a member is found if it is there. -/
theorem find?_eq_some_iff (h : ms.keys.Nodup) : find? key ms = some value ↔ (key, value) ∈ ms := by
  refine ⟨mem_of_find?, fun hmem ↦ ?_⟩
  induction ms with
  | nil => exact absurd hmem List.not_mem_nil
  | cons n ms ih =>
    obtain ⟨hn, hms⟩ := List.nodup_cons.mp h
    rw [find?]
    rcases List.mem_cons.mp hmem with rfl | hmem
    · exact if_pos rfl
    · rw [if_neg fun heq : n.1 = key ↦ hn (heq ▸ List.mem_map_of_mem hmem)]
      exact ih hms hmem

/-! ## Looking up what was changed -/

theorem find?_set_self (key : String) (value : Json) (ms : Members) :
    find? key (set key value ms) = some value := by
  induction ms with
  | nil => exact if_pos rfl
  | cons m ms ih =>
    rw [set]
    split_ifs with heq hlt
    · exact if_pos rfl
    · exact if_pos rfl
    · rw [find?, if_neg heq, ih]

theorem find?_set_of_ne {k : String} (h : k ≠ key) (value : Json) (ms : Members) :
    find? k (set key value ms) = find? k ms := by
  induction ms with
  | nil => exact if_neg (Ne.symm h)
  | cons m ms ih =>
    rw [set]
    split_ifs with heq hlt
    · rw [find?, if_neg (Ne.symm h), find?, if_neg (heq ▸ Ne.symm h)]
    · rw [find?, if_neg (Ne.symm h)]
    · rw [find?, find?, ih]

theorem find?_erase_self (key : String) (ms : Members) : find? key (erase key ms) = none := by
  rw [find?_eq_none_iff, keys, List.mem_map]
  rintro ⟨m, hm, rfl⟩
  exact of_decide_eq_true (List.mem_filter.mp hm).2 rfl

theorem find?_erase_of_ne {k : String} (h : k ≠ key) (ms : Members) :
    find? k (erase key ms) = find? k ms := by
  induction ms with
  | nil => rfl
  | cons m ms ih =>
    by_cases hm : m.1 = key
    · rw [erase, List.filter_cons_of_neg (by simp [hm]), ← erase, ih, find?,
        if_neg fun heq ↦ h (heq.symm.trans hm)]
    · rw [erase, List.filter_cons_of_pos (by simp [hm]), ← erase, find?, find?, ih]

/-- A member that is there need not be set. -/
theorem Ascending.set_eq_self (h : Ascending ms) (hv : find? key ms = some value) :
    Members.set key value ms = ms := by
  induction ms with
  | nil => cases hv
  | cons m ms ih =>
    obtain ⟨hm, hms⟩ := List.pairwise_cons.mp h
    rw [find?] at hv
    rw [Members.set]
    split_ifs at hv ⊢ with heq hlt
    · rw [← heq, ← Option.some.inj hv]
    · exact absurd hlt (lt_asymm (hm _ (mem_of_find? hv)))
    · rw [ih hms hv]

/-- A member that is not there need not be erased. -/
theorem erase_eq_self (h : find? key ms = none) : erase key ms = ms := by
  refine List.filter_eq_self.mpr fun m hm ↦ decide_eq_true fun heq ↦ ?_
  exact find?_eq_none_iff.mp h (heq ▸ List.mem_map_of_mem hm)

end Members

/-! ## Values -/

namespace Json

variable {v w : Json} {xs : List Json} {ms : Members}

/-- Every object inside the value, and the value itself if it is one, has the property. -/
inductive AllObjects (P : Members → Prop) : Json → Prop
  | null : AllObjects P .null
  | bool (value : Bool) : AllObjects P (.bool value)
  | number (value : Number) : AllObjects P (.number value)
  | string (value : String) : AllObjects P (.string value)
  | array {items : List Json} (h : ∀ x ∈ items, AllObjects P x) : AllObjects P (.array items)
  | object {members : Members} (hms : P members) (h : ∀ m ∈ members, AllObjects P m.2) :
    AllObjects P (.object members)

namespace AllObjects

variable {P Q : Members → Prop}

theorem of_mem_items (h : (Json.array xs).AllObjects P) (hw : w ∈ xs) : w.AllObjects P := by
  cases h with
  | array h => exact h w hw

theorem of_mem_members (h : (Json.object ms).AllObjects P) {m : String × Json} (hm : m ∈ ms) :
    m.2.AllObjects P := by
  cases h with
  | object _ h => exact h m hm

theorem self (h : (Json.object ms).AllObjects P) : P ms := by
  cases h with
  | object hms _ => exact hms

theorem imp (hPQ : ∀ ms, P ms → Q ms) (h : v.AllObjects P) : v.AllObjects Q := by
  induction h with
  | null => exact .null
  | bool => exact .bool _
  | number => exact .number _
  | string => exact .string _
  | array _ ih => exact .array ih
  | object hms _ ih => exact .object (hPQ _ hms) ih

end AllObjects

/-- The keys of all objects ascend. -/
abbrev Canonical (v : Json) : Prop := v.AllObjects Members.Ascending

/-- No object has a key twice. -/
abbrev Distinct (v : Json) : Prop := v.AllObjects fun ms ↦ ms.keys.Nodup

theorem Canonical.distinct (h : v.Canonical) : v.Distinct := h.imp fun _ ↦ Members.Ascending.nodup

/-- The value with the members of all objects in ascending order of their keys. -/
def sorted : Json → Json
  | array xs => array (ofItems xs)
  | object ms => object (Members.ordered (ofMembers ms))
  | v => v
where
  ofItems : List Json → List Json
    | [] => []
    | x :: xs => x.sorted :: ofItems xs
  ofMembers : List (String × Json) → List (String × Json)
    | [] => []
    | (k, x) :: ms => (k, x.sorted) :: ofMembers ms

/-- A member with its value sorted. -/
def sortedMember (m : String × Json) : String × Json := (m.1, m.2.sorted)

theorem sorted_array (xs : List Json) : (array xs).sorted = array (xs.map sorted) := by
  rw [sorted]
  congr 1
  induction xs with
  | nil => rfl
  | cons x xs ih => rw [sorted.ofItems, ih, List.map_cons]

theorem sorted_object (ms : Members) :
    (object ms).sorted = object (Members.ordered (ms.map sortedMember)) := by
  have h : sorted.ofMembers ms = ms.map sortedMember := by
    induction ms with
    | nil => rfl
    | cons m ms ih => rw [sorted.ofMembers, ih, List.map_cons, sortedMember]
  rw [sorted, h]

theorem keys_map_sortedMember (ms : Members) : Members.keys (ms.map sortedMember) = ms.keys := by
  rw [Members.keys, List.map_map]
  rfl

theorem canonical_sorted (v : Json) : v.sorted.Canonical := by
  induction v using ind with
  | null => exact .null
  | bool => exact .bool _
  | number => exact .number _
  | string => exact .string _
  | array xs ih =>
    rw [sorted_array]
    refine .array fun x hx ↦ ?_
    obtain ⟨y, hy, rfl⟩ := List.mem_map.mp hx
    exact ih y hy
  | object ms ih =>
    rw [sorted_object]
    refine .object (Members.ascending_ordered _) fun m hm ↦ ?_
    obtain ⟨n, hn, rfl⟩ := List.mem_map.mp (Members.mem_of_mem_ordered hm)
    exact ih n hn

/-- **A canonical value is sorted.** -/
theorem sorted_of_canonical (h : v.Canonical) : v.sorted = v := by
  induction h with
  | null | bool | number | string => rfl
  | array _ ih =>
    rw [sorted_array, List.map_congr_left ih, List.map_id']
  | @object ms hms _ ih =>
    have hmap : ms.map sortedMember = ms :=
      (List.map_congr_left fun m hm ↦ by rw [sortedMember, ih m hm]).trans (List.map_id' ms)
    rw [sorted_object, hmap, Members.ordered_of_ascending hms]

/-! ## The same value in another order -/

/-- The values differ in the order of members only. -/
structure Rearranges (w v : Json) : Prop where
  distinct_left : w.Distinct
  distinct_right : v.Distinct
  sorted_eq : w.sorted = v.sorted

theorem Distinct.rearranges (h : v.Distinct) : v.Rearranges v := ⟨h, h, rfl⟩

namespace Rearranges

theorem eq_null (h : w.Rearranges .null) : w = .null := by
  have heq := h.sorted_eq
  cases w with
  | null => rfl
  | _ => cases heq

theorem ne_null (h : w.Rearranges v) (hv : v ≠ .null) : w ≠ .null := by
  rintro rfl
  exact hv (eq_null ⟨h.distinct_right, h.distinct_left, h.sorted_eq.symm⟩)

theorem eq_string {s : String} (h : w.Rearranges (.string s)) : w = .string s := by
  have heq := h.sorted_eq
  cases w with
  | string => exact heq
  | _ => cases heq

theorem eq_number {n : Number} (h : w.Rearranges (.number n)) : w = .number n := by
  have heq := h.sorted_eq
  cases w with
  | number => exact heq
  | _ => cases heq

/-- The items are the same but for the order of members in them. -/
theorem exists_eq_array (h : w.Rearranges (array xs)) :
    ∃ ys, w = array ys ∧ List.Forall₂ Rearranges ys xs := by
  obtain ⟨hw, hv, heq⟩ := h
  cases w with
  | array ys =>
    rw [sorted_array, sorted_array, array.injEq] at heq
    refine ⟨ys, rfl, List.forall₂_iff_get.mpr ⟨by simpa using congrArg List.length heq, ?_⟩⟩
    intro i hy hx
    refine ⟨hw.of_mem_items (List.get_mem ys _), hv.of_mem_items (List.get_mem xs _), ?_⟩
    have hi := congrArg (·[i]?) heq
    simpa [hx, hy] using hi
  | _ => cases heq

/-- The members are the same but for their order and the order of members in them. -/
theorem exists_eq_object (h : w.Rearranges (object ms)) :
    ∃ ns : Members, w = object ns ∧ (ns.map sortedMember).Perm (ms.map sortedMember) := by
  obtain ⟨hw, hv, heq⟩ := h
  cases w with
  | object ns =>
    rw [sorted_object, sorted_object, object.injEq, Members.ordered_eq_ordered_iff] at heq
    · exact ⟨ns, rfl, heq⟩
    · rw [keys_map_sortedMember]
      exact hw.self
    · rw [keys_map_sortedMember]
      exact hv.self
  | _ => cases heq

variable {ns : Members} {key : String}

theorem perm_keys (h : (object ns).Rearranges (object ms)) : ns.keys.Perm ms.keys := by
  obtain ⟨_, heq, hperm⟩ := h.exists_eq_object
  cases heq
  rw [← keys_map_sortedMember ns, ← keys_map_sortedMember ms]
  exact hperm.map _

/-- **A member is found in another order as well.** -/
theorem find? (h : (object ns).Rearranges (object ms)) (hv : Members.find? key ms = some v) :
    ∃ u, Members.find? key ns = some u ∧ u.Rearranges v := by
  obtain ⟨_, heq, hperm⟩ := h.exists_eq_object
  cases heq
  have hv := Members.mem_of_find? hv
  obtain ⟨⟨k, u⟩, hu, heq⟩ := List.mem_map.mp (hperm.mem_iff.mpr (List.mem_map_of_mem hv))
  obtain ⟨rfl, hsorted⟩ := Prod.mk.inj heq
  exact ⟨u, (Members.find?_eq_some_iff h.distinct_left.self).mpr hu,
    h.distinct_left.of_mem_members hu, h.distinct_right.of_mem_members hv, hsorted⟩

/-- What is left without a key differs in the order only. -/
theorem erase (h : (object ns).Rearranges (object ms)) (key : String) :
    (object (Members.erase key ns)).Rearranges (object (Members.erase key ms)) := by
  have herase : ∀ {ls : Members}, (object ls).Distinct → (object (Members.erase key ls)).Distinct :=
    fun h ↦ .object (h.self.sublist (List.filter_sublist.map _))
      fun m hm ↦ h.of_mem_members (List.mem_of_mem_filter hm)
  have hsorted : ∀ ls : Members,
      (Members.erase key ls).map sortedMember = Members.erase key (ls.map sortedMember) :=
    fun ls ↦ by rw [Members.erase, Members.erase, List.filter_map]; rfl
  refine ⟨herase h.distinct_left, herase h.distinct_right, ?_⟩
  obtain ⟨_, heq, hperm⟩ := h.exists_eq_object
  cases heq
  rw [sorted_object, sorted_object, object.injEq, Members.ordered_eq_ordered_iff, hsorted, hsorted]
  · exact hperm.filter _
  · rw [keys_map_sortedMember]
    exact (herase h.distinct_left).self
  · rw [keys_map_sortedMember]
    exact (herase h.distinct_right).self

end Rearranges

end Json

end MappingGraph
