import Mathlib.Data.List.Count
import MappingGraph.Proofs.Build.Inputs
import MappingGraph.Proofs.Text.Numeral

/-!
# The arrangement of inputs

The edges into a node may have positions or not, and a position may be given to several of them.
`Inputs.Arranges` says how they are put in order in every case: by their positions, with the edges
that have none at the end, and without turning round any two that this does not tell apart.  There
is one such arrangement (`Inputs.Arranges.unique`), and it is the one that inputs are taken in
(`Inputs.arranges_ordered`).
-/

set_option autoImplicit false

namespace MappingGraph

/-! ## Positions -/

/-- The target handle of the edge is `input-` with the number behind it.  A number from `2 ^ 64` on
is no position. -/
def Edge.IsInput (e : Edge) (n : Nat) : Prop :=
  ∃ text : String, e.targetHandle = some ("input-" ++ text) ∧
    Text.Natural text.toList n ∧ n < Nat.pow 2 64

theorem Edge.inputIndex?_eq_some_iff {e : Edge} {n : Nat} :
    e.inputIndex? = some n ↔ e.IsInput n := by
  simp only [inputIndex?, bind, Option.bind_eq_some_iff, List.isPrefixOf?_eq_some_iff_append_eq,
    Text.naturalBelow?_eq_some_iff, String.toList_ofList]
  constructor
  · rintro ⟨handle, hhandle, rest, hrest, hn, hlt⟩
    have htext : handle = "input-" ++ String.ofList rest := by
      rw [← String.toList_inj, String.toList_append, ← hrest]
      exact congrArg _ String.toList_ofList.symm
    exact ⟨String.ofList rest, htext ▸ hhandle, String.toList_ofList.symm ▸ hn, hlt⟩
  · rintro ⟨text, hhandle, hn, hlt⟩
    exact ⟨_, hhandle, text.toList, String.toList_append.symm, hn, hlt⟩

namespace Inputs

variable {edges edges' l l' : List Edge} {e f : Edge} {p : Nat}

/-! ## Arrangements -/

/-- The edge may stand in front of the other one: it has a position that is not higher, or the other
one has none. -/
def Precedes (e f : Edge) : Prop := ∀ j, f.inputIndex? = some j → ∃ i ≤ j, e.inputIndex? = some i

theorem precedes_of_none (hf : f.inputIndex? = none) : Precedes e f := fun j hj ↦ by
  rw [hf] at hj
  cases hj

theorem Precedes.antisymm (h : Precedes e f) (h' : Precedes f e) :
    e.inputIndex? = f.inputIndex? := by
  cases hf : f.inputIndex? with
  | none =>
    refine Option.eq_none_iff_forall_ne_some.mpr fun i he ↦ ?_
    obtain ⟨j, -, hj⟩ := h' i he
    rw [hf] at hj
    cases hj
  | some j =>
    obtain ⟨i, hij, he⟩ := h j hf
    obtain ⟨k, hki, hk⟩ := h' i he
    have hjk : j = k := Option.some.inj (hf.symm.trans hk)
    rw [he, Nat.le_antisymm hij (hjk ▸ hki)]

/-- The edges in order. -/
structure Arranges (edges l : List Edge) : Prop where
  /-- None is lost, and none is added. -/
  perm : l.Perm edges
  /-- Positions are ascending, and edges without one come last. -/
  ascending : l.Pairwise Precedes
  /-- Edges with the same position, or without one, keep their order. -/
  stable : ∀ position : Option Nat,
    l.filter (·.inputIndex? = position) = edges.filter (·.inputIndex? = position)

theorem perm_of_filter_eq (h : ∀ position : Option Nat,
    l.filter (·.inputIndex? = position) = l'.filter (·.inputIndex? = position)) : l.Perm l' := by
  refine List.perm_iff_count.mpr fun e ↦ ?_
  have hown : ∀ l : List Edge, (l.filter (·.inputIndex? = e.inputIndex?)).count e = l.count e :=
    fun l ↦ List.count_filter (decide_eq_true rfl)
  rw [← hown l, h, hown l']

/-- Two lists of edges in order that have the same edges of each position, in the same order, are
the same.  The induction is on their first edges: each may stand in front of the other, so they have
the same position. -/
theorem eq_of_filter_eq (hl : l.Pairwise Precedes) (hl' : l'.Pairwise Precedes)
    (h : ∀ position : Option Nat,
      l.filter (·.inputIndex? = position) = l'.filter (·.inputIndex? = position)) : l = l' := by
  induction l generalizing l' with
  | nil => exact (List.nil_perm.mp (perm_of_filter_eq h)).symm
  | cons e l ih =>
    cases l' with
    | nil => exact List.perm_nil.mp (perm_of_filter_eq h)
    | cons f l' =>
      obtain ⟨he, htail⟩ := List.pairwise_cons.mp hl
      obtain ⟨hf, htail'⟩ := List.pairwise_cons.mp hl'
      have hperm := perm_of_filter_eq h
      have hsame : e.inputIndex? = f.inputIndex? := by
        rcases List.mem_cons.mp (hperm.mem_iff.mp List.mem_cons_self) with rfl | hefront
        · rfl
        rcases List.mem_cons.mp (hperm.mem_iff.mpr List.mem_cons_self) with rfl | hffront
        · rfl
        exact (he f hffront).antisymm (hf e hefront)
      have hfront := h f.inputIndex?
      simp only [List.filter_cons, hsame, decide_true, ↓reduceIte] at hfront
      obtain ⟨rfl, hrest⟩ := List.cons.inj hfront
      refine congrArg _ (ih htail htail' fun position ↦ ?_)
      by_cases hposition : e.inputIndex? = position
      · exact hposition ▸ hrest
      · have hp := h position
        rwa [List.filter_cons_of_neg (by simpa using hposition),
          List.filter_cons_of_neg (by simpa using hposition)] at hp

/-- **There is only one arrangement.** -/
theorem Arranges.unique (h : Arranges edges l) (h' : Arranges edges l') : l = l' :=
  eq_of_filter_eq h.ascending h'.ascending fun position ↦
    (h.stable position).trans (h'.stable position).symm

/-! ## The arrangement -/

/-- An edge is put before those of its position. -/
theorem filter_insertEdge (p : Nat) (e : Edge) (n : Nat) (l : List (Nat × Edge)) :
    (insertEdge p e l).filter (·.1 = n) = ((p, e) :: l).filter (·.1 = n) := by
  induction l with
  | nil => rfl
  | cons q l ih =>
    obtain ⟨i, f⟩ := q
    rw [insertEdge]
    split
    · rfl
    · next hle =>
      by_cases hn : i = n
      · have hp : p ≠ n := fun heq ↦ hle (Nat.le_of_eq (heq.trans hn.symm))
        simpa [hn, hp] using ih
      · simpa [hn, List.filter_cons] using ih

theorem filter_positioned (edges : List Edge) (n : Nat) :
    (positioned edges).filter (·.1 = n) = (withPosition edges).filter (·.1 = n) := by
  induction edges with
  | nil => rfl
  | cons e edges ih =>
    rw [positioned, withPosition, List.filterMap_cons]
    cases e.inputIndex? with
    | none => exact ih
    | some p =>
      show (insertEdge p e (positioned edges)).filter (·.1 = n) =
        ((p, e) :: withPosition edges).filter (·.1 = n)
      rw [filter_insertEdge, List.filter_cons, List.filter_cons, ih]

/-- **Ordering the edges leaves those of a position, and those without one, as they were.** -/
theorem filter_ordered (edges : List Edge) (position : Option Nat) :
    (ordered edges).filter (·.inputIndex? = position) =
      edges.filter (·.inputIndex? = position) := by
  have hpositions : ∀ q ∈ positioned edges, q.2.inputIndex? = some q.1 := fun q hq ↦
    (mem_positioned_iff.mp hq).2
  rw [ordered, List.filter_append, List.filter_map, List.filter_filter]
  cases position with
  | none =>
    rw [List.filter_eq_nil_iff.mpr fun q hq ↦ by simp [hpositions q hq], List.map_nil,
      List.nil_append]
    refine List.filter_congr fun e _ ↦ ?_
    cases e.inputIndex? <;> rfl
  | some n =>
    have hrest : edges.filter (fun e ↦ decide (e.inputIndex? = some n) && e.inputIndex?.isNone) =
        [] := by
      refine List.filter_eq_nil_iff.mpr fun e _ ↦ ?_
      cases e.inputIndex? <;> simp
    have hkeys : (positioned edges).filter ((fun e ↦ decide (e.inputIndex? = some n)) ∘ Prod.snd) =
        (positioned edges).filter (·.1 = n) := by
      refine List.filter_congr fun q hq ↦ ?_
      simp [hpositions q hq]
    rw [hrest, List.append_nil, hkeys, filter_positioned, withPosition, List.filter_filterMap,
      List.map_filterMap, ← List.filterMap_eq_filter]
    refine List.filterMap_congr fun e _ ↦ ?_
    cases he : e.inputIndex? with
    | none => simp [Option.guard, he]
    | some i => by_cases hi : i = n <;> simp [Option.guard, Option.filter_some, he, hi]

theorem arranges_ordered (edges : List Edge) : Arranges edges (ordered edges) where
  perm := perm_of_filter_eq (filter_ordered edges)
  ascending := by
    have hnone : ∀ f ∈ edges.filter (·.inputIndex?.isNone), f.inputIndex? = none := fun f hf ↦
      Option.isNone_iff_eq_none.mp (List.mem_filter.mp hf).2
    refine List.pairwise_append.mpr ⟨?_, ?_, fun _ _ f hf ↦ precedes_of_none (hnone f hf)⟩
    · refine List.pairwise_map.mpr ((positioned_pairwise edges).imp_of_mem ?_)
      rintro ⟨i, e⟩ ⟨j, f⟩ he hf hij k hk
      have hjk : j = k := Option.some.inj ((mem_positioned_iff.mp hf).2.symm.trans hk)
      exact ⟨i, hjk ▸ hij, (mem_positioned_iff.mp he).2⟩
    · exact List.pairwise_of_forall_mem_list fun _ _ f hf ↦ precedes_of_none (hnone f hf)
  stable := filter_ordered edges

/-! ## Inputs -/

/-- The inputs are those that the edges bring in, none lost and in order. -/
structure Collects (edges : List Edge) (inputs : List BuiltExpr) : Prop where
  /-- A position is read off the target handle. -/
  position : ∀ e ∈ edges, ∀ n, e.inputIndex? = some n ↔ e.IsInput n
  /-- Each edge brings in one input. -/
  length : inputs.length = edges.length
  /-- The inputs stand in the one arrangement that there is. -/
  arranged : ∃ l, Arranges edges l ∧ (∀ other, Arranges edges other → other = l) ∧
    inputs = l.map ofEdge
  /-- Edges with positions of their own bring in the same in whatever order they are listed. -/
  anyOrder : Positioned edges → ∀ other, edges.Perm other → collect other = inputs

/-- **Collecting inputs loses nothing and puts them in order**, whatever handles the edges have. -/
theorem collect_arranged (edges : List Edge) : Collects edges (collect edges) where
  position _ _ _ := Edge.inputIndex?_eq_some_iff
  length := by rw [collect, List.length_map, (arranges_ordered edges).perm.length_eq]
  arranged :=
    ⟨ordered edges, arranges_ordered edges, fun _ h ↦ h.unique (arranges_ordered edges), rfl⟩
  anyOrder h _ hperm := congrArg (List.map ofEdge) (ordered_perm h hperm).symm

/-- Equal positions keep their order; a number that is too large is no position. -/
example : (ordered
    [⟨"a", .source, none, .node "n", some "value"⟩,
     ⟨"b", .source, none, .node "n", some "input-2"⟩,
     ⟨"c", .source, none, .node "n", some "input-18446744073709551616"⟩,
     ⟨"d", .source, none, .node "n", some "input-+0"⟩,
     ⟨"e", .source, none, .node "n", some "input-02"⟩]).map Edge.id =
    ["d", "b", "e", "a", "c"] := by
  decide

end Inputs

end MappingGraph
