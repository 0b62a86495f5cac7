import Mathlib.Data.List.Nodup
import Mathlib.Data.List.Perm.Lattice
import MappingGraph.Build.Inputs

/-!
# Inputs in order

Ordering the edges of a node loses none of them and adds none (`Inputs.mem_ordered_iff`).  Edges
with positions of their own, which is `Inputs.Positioned`, are in ascending order, so it does not
matter how they were listed (`Inputs.ordered_perm`), and each stands at the rank of its position:
as many edges come before it as have lower positions (`Inputs.getElem?_ordered`).
-/

set_option autoImplicit false

namespace MappingGraph

namespace Inputs

variable {edges edges' : List Edge} {e : Edge} {i : Nat}

theorem mem_insertEdge {position : Nat} {l : List (Nat × Edge)} {p : Nat × Edge} :
    p ∈ insertEdge position e l ↔ p = (position, e) ∨ p ∈ l := by
  fun_induction insertEdge position e l with
  | case1 => rw [List.mem_singleton, or_iff_left List.not_mem_nil]
  | case2 => rw [List.mem_cons]
  | case3 i f rest _ ih => rw [List.mem_cons, ih, List.mem_cons, or_left_comm]

theorem mem_positioned_iff : (i, e) ∈ positioned edges ↔ e ∈ edges ∧ e.inputIndex? = some i := by
  induction edges with
  | nil => simp [positioned]
  | cons f edges ih =>
    rw [positioned]
    split
    · next j hj =>
      rw [mem_insertEdge, ih, Prod.mk.injEq, List.mem_cons]
      constructor
      · rintro (⟨rfl, rfl⟩ | ⟨he, hi⟩)
        · exact ⟨.inl rfl, hj⟩
        · exact ⟨.inr he, hi⟩
      · rintro ⟨rfl | he, hi⟩
        · exact .inl ⟨Option.some.inj (hi.symm.trans hj), rfl⟩
        · exact .inr ⟨he, hi⟩
    · next hf =>
      rw [ih, List.mem_cons]
      refine ⟨fun h ↦ ⟨.inr h.1, h.2⟩, fun h ↦ ⟨h.1.resolve_left ?_, h.2⟩⟩
      rintro rfl
      rw [hf] at h
      cases h.2

/-- Ordering the edges loses none and adds none. -/
theorem mem_ordered_iff : e ∈ ordered edges ↔ e ∈ edges := by
  simp only [ordered, List.mem_append, List.mem_map, List.mem_filter, Prod.exists,
    exists_eq_right, mem_positioned_iff, Option.isNone_iff_eq_none]
  cases h : e.inputIndex? with
  | none => simp
  | some i => simp

/-! ## Positions of their own -/

/-- The edges have positions, no two of them the same. -/
structure Positioned (edges : List Edge) : Prop where
  isSome : ∀ e ∈ edges, e.inputIndex?.isSome
  nodup : (edges.map (·.inputIndex?)).Nodup

/-- With positions of their own, the edge of a position is one. -/
theorem Positioned.eq_of_inputIndex? (h : Positioned edges) {f : Edge} (he : e ∈ edges)
    (hf : f ∈ edges) (hi : e.inputIndex? = some i) (hj : f.inputIndex? = some i) : e = f :=
  List.inj_on_of_nodup_map h.nodup he hf (hi.trans hj.symm)

theorem insertEdge_perm (position : Nat) (e : Edge) (l : List (Nat × Edge)) :
    (insertEdge position e l).Perm ((position, e) :: l) := by
  induction l with
  | nil => exact .refl _
  | cons p l ih =>
    rw [insertEdge]
    split
    · exact .refl _
    · exact (ih.cons p).trans (.swap _ _ _)

theorem insertEdge_pairwise (position : Nat) (e : Edge) {l : List (Nat × Edge)}
    (h : l.Pairwise (·.1 ≤ ·.1)) : (insertEdge position e l).Pairwise (·.1 ≤ ·.1) := by
  induction l with
  | nil => exact List.pairwise_singleton _ _
  | cons p l ih =>
    obtain ⟨hp, hl⟩ := List.pairwise_cons.mp h
    rw [insertEdge]
    split
    · next hle =>
      refine List.pairwise_cons.mpr ⟨fun q hq ↦ ?_, h⟩
      rcases List.mem_cons.mp hq with rfl | hq
      · exact hle
      · exact Nat.le_trans hle (hp q hq)
    · next hlt =>
      refine List.pairwise_cons.mpr ⟨fun q hq ↦ ?_, ih hl⟩
      rcases mem_insertEdge.mp hq with rfl | hq
      · exact Nat.le_of_not_le hlt
      · exact hp q hq

/-- The edges that have a position, with it, in the order of the list. -/
def withPosition (edges : List Edge) : List (Nat × Edge) :=
  edges.filterMap fun e ↦ e.inputIndex?.map (·, e)

theorem positioned_perm (edges : List Edge) : (positioned edges).Perm (withPosition edges) := by
  induction edges with
  | nil => exact .refl _
  | cons e edges ih =>
    rw [positioned, withPosition, List.filterMap_cons]
    cases e.inputIndex? with
    | none => exact ih
    | some position => exact (insertEdge_perm position e _).trans (ih.cons _)

theorem positioned_pairwise (edges : List Edge) : (positioned edges).Pairwise (·.1 ≤ ·.1) := by
  induction edges with
  | nil => exact .nil
  | cons e edges ih =>
    rw [positioned]
    split
    · exact insertEdge_pairwise _ e ih
    · exact ih

theorem ordered_eq (h : Positioned edges) : ordered edges = (positioned edges).map (·.2) := by
  rw [ordered, List.filter_eq_nil_iff.mpr, List.append_nil]
  intro e he hnone
  have := h.isSome e he
  rw [Option.isNone_iff_eq_none.mp hnone] at this
  exact Bool.false_ne_true this

/-- **With positions of their own the inputs are in one order**, however the edges are listed: an
ascending list is determined by its members. -/
theorem ordered_perm (h : Positioned edges) (hperm : edges.Perm edges') :
    ordered edges = ordered edges' := by
  have h' : Positioned edges' :=
    ⟨fun e he ↦ h.isSome e (hperm.mem_iff.mpr he), (hperm.map _).nodup_iff.mp h.nodup⟩
  rw [ordered_eq h, ordered_eq h']
  refine congrArg _ (List.Perm.eq_of_pairwise ?_ (positioned_pairwise _)
    (positioned_pairwise _) ?_)
  · rintro ⟨i, e⟩ ⟨j, f⟩ hie hjf hij hji
    obtain ⟨he, hi⟩ := mem_positioned_iff.mp hie
    obtain ⟨hf, hj⟩ := mem_positioned_iff.mp hjf
    have heq : i = j := Nat.le_antisymm hij hji
    subst heq
    rw [h.eq_of_inputIndex? he (hperm.mem_iff.mpr hf) hi hj]
  · exact (positioned_perm edges).trans ((hperm.filterMap _).trans (positioned_perm edges').symm)

/-! ## Ranks -/

/-- The positions of the edges. -/
def positions (edges : List Edge) : List Nat := edges.filterMap (·.inputIndex?)

/-- How many of the edges have a lower position. -/
def rank (edges : List Edge) (position : Nat) : Nat := (positions edges).countP (· < position)

theorem mem_positions_iff : i ∈ positions edges ↔ ∃ e ∈ edges, e.inputIndex? = some i :=
  List.mem_filterMap

theorem nodup_positions (h : Positioned edges) : (positions edges).Nodup := by
  have hpositions : positions edges = (edges.map (·.inputIndex?)).filterMap id := by
    rw [List.filterMap_map]
    rfl
  rw [hpositions]
  exact h.nodup.filterMap fun _ _ _ ha hb ↦ ha.trans hb.symm

theorem map_fst_positioned_perm (edges : List Edge) :
    ((positioned edges).map (·.1)).Perm (positions edges) := by
  refine ((positioned_perm edges).map _).trans (.of_eq ?_)
  rw [withPosition, List.map_filterMap, positions]
  refine List.filterMap_congr fun e _ ↦ ?_
  cases e.inputIndex? <;> rfl

theorem length_ordered (h : Positioned edges) :
    (ordered edges).length = (positions edges).length := by
  rw [ordered_eq h, ← (map_fst_positioned_perm edges).length_eq, List.length_map, List.length_map]

theorem positioned_ascending (h : Positioned edges) :
    ((positioned edges).map (·.1)).Pairwise (· < ·) := by
  have hnodup := (map_fst_positioned_perm edges).nodup_iff.mpr (nodup_positions h)
  refine ((List.pairwise_map.mpr (positioned_pairwise edges)).and hnodup).imp ?_
  rintro i j ⟨hle, hne⟩
  exact Nat.lt_of_le_of_ne hle hne

/-- In an ascending list a number stands behind as many as are lower. -/
theorem getElem?_countP_lt {l : List Nat} (h : l.Pairwise (· < ·)) (hi : i ∈ l) :
    l[l.countP (· < i)]? = some i := by
  induction l with
  | nil => exact absurd hi List.not_mem_nil
  | cons j l ih =>
    obtain ⟨hj, hl⟩ := List.pairwise_cons.mp h
    rcases List.mem_cons.mp hi with rfl | hi
    · have hnone : (i :: l).countP (· < i) = 0 :=
        List.countP_eq_zero.mpr fun k hk ↦ by
          rcases List.mem_cons.mp hk with rfl | hk
          · simp
          · simpa using Nat.le_of_lt (hj k hk)
      rw [hnone, List.getElem?_cons_zero]
    · rw [List.countP_cons_of_pos (by simpa using hj i hi), List.getElem?_cons_succ]
      exact ih hl hi

/-- **An edge stands at the rank of its position.** -/
theorem getElem?_ordered (h : Positioned edges) (he : e ∈ edges) (hi : e.inputIndex? = some i) :
    (ordered edges)[rank edges i]? = some e := by
  have hmem := List.mem_map_of_mem (f := Prod.fst) (mem_positioned_iff.mpr ⟨he, hi⟩)
  have hrank := getElem?_countP_lt (positioned_ascending h) hmem
  rw [(map_fst_positioned_perm edges).countP_eq, List.getElem?_map,
    Option.map_eq_some_iff] at hrank
  obtain ⟨⟨j, f⟩, hf, rfl⟩ := hrank
  obtain ⟨hfmem, hj⟩ := mem_positioned_iff.mp (List.mem_of_getElem? hf)
  rw [ordered_eq h, List.getElem?_map, rank, hf, Option.map_some,
    h.eq_of_inputIndex? hfmem he hj hi]

end Inputs

end MappingGraph
