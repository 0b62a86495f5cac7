import Mathlib.Data.List.Count
import Mathlib.Data.List.Perm.Subperm
import MappingGraph.Build.Output
import MappingGraph.Proofs.Build.Inputs
import MappingGraph.Proofs.Build.Operands

/-!
# Positions

An edge with the target handle `input-<N>` is drawn to operand `N`, which is what
`Graph.FeedsPositions` says of all edges into a node.  The rules, however, take the operands from a
list in which each edge stands at its rank.  That is its position as long as no lower position is
free: over a gap the later inputs move up, and they take the place of settings too.

`Graph.FeedsByRank` describes what happens in every case and says that positions are kept exactly
if there is no gap (`Inputs.Gapless`).
-/

set_option autoImplicit false

namespace MappingGraph

namespace Inputs

variable {edges : List Edge} {e : Edge} {arity m n : Nat}

/-! ## Gaps -/

/-- The input of a position. -/
def at? (edges : List Edge) (position : Nat) : Option BuiltExpr :=
  (edges.find? (·.inputIndex? = some position)).map ofEdge

/-- No position of an operand is free while an edge has a later one. -/
def Gapless (arity : Nat) (edges : List Edge) : Prop :=
  ∀ m < arity, ∀ n ∈ positions edges, m < n → m ∈ positions edges

theorem at?_eq_some (h : Positioned edges) (he : e ∈ edges) (hn : e.inputIndex? = some n) :
    at? edges n = some (ofEdge e) := by
  rw [at?]
  cases hf : edges.find? (·.inputIndex? = some n) with
  | none => exact absurd (decide_eq_true hn) (List.find?_eq_none.mp hf e he)
  | some f =>
    have hposition : f.inputIndex? = some n := by simpa using List.find?_some hf
    rw [h.eq_of_inputIndex? he (List.mem_of_find?_eq_some hf) hn hposition, Option.map_some]

theorem at?_eq_none (hn : n ∉ positions edges) : at? edges n = none := by
  rw [at?, List.find?_eq_none.mpr, Option.map_none]
  intro e he hn'
  exact hn (mem_positions_iff.mpr ⟨e, he, of_decide_eq_true hn'⟩)

/-- A position has as many lower ones as it says, if none of them is free. -/
theorem rank_eq (h : Positioned edges) (hbelow : ∀ k < n, k ∈ positions edges) :
    rank edges n = n := by
  have hperm : ((positions edges).filter (· < n)).Perm (List.range n) := by
    rw [List.perm_ext_iff_of_nodup ((nodup_positions h).filter _) List.nodup_range]
    intro k
    rw [List.mem_filter, decide_eq_true_iff, List.mem_range]
    exact ⟨And.right, fun hk ↦ ⟨hbelow k hk, hk⟩⟩
  rw [rank, List.countP_eq_length_filter, hperm.length_eq, List.length_range]

theorem length_collect (h : Positioned edges) :
    (collect edges).length = (positions edges).length := by
  rw [collect, List.length_map, length_ordered h]

/-- Without a gap every operand is the input of its position. -/
theorem getElem?_collect (h : Positioned edges) (hgapless : Gapless arity edges) (hn : n < arity) :
    (collect edges)[n]? = at? edges n := by
  by_cases hwired : n ∈ positions edges
  · have hrank : rank edges n = n :=
      rank_eq h fun k hk ↦ hgapless k (Nat.lt_trans hk hn) n hwired hk
    obtain ⟨e, he, hi⟩ := mem_positions_iff.mp hwired
    rw [at?_eq_some h he hi, collect, List.getElem?_map, ← hrank, getElem?_ordered h he hi]
    rfl
  · -- all positions are lower then, so the list of inputs ends before `n`
    have hlower : ∀ k ∈ positions edges, k < n := by
      intro k hk
      rcases Nat.lt_trichotomy k n with hlt | rfl | hlt
      · exact hlt
      · exact absurd hk hwired
      · exact absurd (hgapless n hn k hk hlt) hwired
    have hlength : (positions edges).length ≤ (List.range n).length :=
      (List.subperm_of_subset (nodup_positions h) fun k hk ↦
        List.mem_range.mpr (hlower k hk)).length_le
    rw [List.length_range, ← length_collect h] at hlength
    rw [at?_eq_none hwired, List.getElem?_eq_none hlength]

/-- The first free position below another gets the input of some edge. -/
theorem exists_getElem?_collect (h : Positioned edges) (hbelow : ∀ k < m, k ∈ positions edges)
    (hn : n ∈ positions edges) (hm : m < n) :
    ∃ e ∈ edges, (collect edges)[m]? = some (ofEdge e) := by
  have hlength : m < (collect edges).length := by
    rw [length_collect h]
    calc m = rank edges m := (rank_eq h hbelow).symm
      _ < (positions edges).length :=
        List.countP_lt_length_iff.mpr ⟨n, hn, decide_eq_false (Nat.lt_asymm hm)⟩
  obtain ⟨e, he, heq⟩ := List.mem_map.mp (List.getElem_mem hlength)
  exact ⟨e, mem_ordered_iff.mp he, by rw [List.getElem?_eq_getElem hlength, heq]⟩

end Inputs

namespace Graph

variable {g : Graph} {registry : Registry} {node : Node} {arity : Nat}

/-! ## Operands of a node -/

/-- **Every edge feeds its position.**  In the expression of the node each operand is the input of
the edge with this position, and what the kind has for a place without input if there is none. -/
def FeedsPositions (g : Graph) (registry : Registry) (node : Node) : Prop :=
  g.exprOf registry node = node.kind.rule.fill node fun n ↦
    (Inputs.at? (g.incoming node.id) n).getD (node.kind.rule.unwired node.config n)

theorem exprOf_eq_fill (hregistered : registry.contains node.kind)
    (harity : node.kind.rule.arity? node.config = some arity) :
    g.exprOf registry node = node.kind.rule.fill node fun n ↦
      (Inputs.collect (g.incoming node.id))[n]?.getD (node.kind.rule.unwired node.config n) := by
  rw [exprOf, Node.build, if_pos hregistered, Rule.build_eq_fill harity]

/-- Without a gap every edge feeds its position. -/
theorem feedsPositions_of_gapless (hregistered : registry.contains node.kind)
    (harity : node.kind.rule.arity? node.config = some arity)
    (hpositioned : Inputs.Positioned (g.incoming node.id))
    (hgapless : Inputs.Gapless arity (g.incoming node.id)) : g.FeedsPositions registry node := by
  rw [FeedsPositions, exprOf_eq_fill hregistered harity]
  refine Rule.fill_congr harity fun n hn ↦ ?_
  rw [Inputs.getElem?_collect hpositioned hgapless hn]

/-- An edge brings in a literal only from the target schema. -/
theorem ofEdge_ne_literal {e : Edge} (h : e.source ≠ .target) (value : Json) (type : LiteralType) :
    Inputs.ofEdge e ≠ .literal value type := by
  rw [Inputs.ofEdge]
  split
  · exact nofun
  · exact nofun
  · exact absurd ‹_› h

/-- If every edge feeds its position, then there is no gap: the input that moved up to the first
free position would be seen there. -/
theorem gapless_of_feedsPositions (hregistered : registry.contains node.kind)
    (harity : node.kind.rule.arity? node.config = some arity)
    (hpositioned : Inputs.Positioned (g.incoming node.id))
    (hsource : ∀ e ∈ g.incoming node.id, e.source ≠ .target)
    (hswitch : node.kind.rule = .switch → Rule.cases node.config ≠ [])
    (hfeeds : g.FeedsPositions registry node) : Inputs.Gapless arity (g.incoming node.id) := by
  intro m
  induction m using Nat.strongRecOn with
  | _ m ih =>
    intro hm n hn hlt
    by_contra hfree
    -- below `m` nothing is free, so that the list of inputs goes on at `m`
    have hbelow : ∀ k < m, k ∈ Inputs.positions (g.incoming node.id) := fun k hk ↦
      ih k hk (Nat.lt_trans hk hm) n hn (Nat.lt_trans hk hlt)
    obtain ⟨e, he, hinput⟩ := Inputs.exists_getElem?_collect hpositioned hbelow hn hlt
    rw [FeedsPositions, exprOf_eq_fill hregistered harity] at hfeeds
    have hoperand := Rule.operand_eq_of_fill_eq harity hswitch hfeeds hm
    rw [hinput, Inputs.at?_eq_none hfree] at hoperand
    obtain ⟨value, type, hunwired⟩ := node.kind.rule.unwired_literal node.config m
    exact ofEdge_ne_literal (hsource e he) value type (hoperand.trans hunwired)

/-! ## In every case -/

/-- What becomes of the inputs of a node with so many operands. -/
structure FeedsByRank (g : Graph) (registry : Registry) (node : Node) (arity : Nat) : Prop where
  /-- The operands are the inputs one after the other, and then what the kind has for a place
  without input. -/
  operands : g.exprOf registry node = node.kind.rule.fill node fun n ↦
    (Inputs.collect (g.incoming node.id))[n]?.getD (node.kind.rule.unwired node.config n)
  /-- An edge has as many inputs before its own as there are edges with a lower position. -/
  rank : ∀ e ∈ g.incoming node.id, ∀ n, e.inputIndex? = some n →
    (Inputs.collect (g.incoming node.id))[Inputs.rank (g.incoming node.id) n]? =
      some (Inputs.ofEdge e)
  gapless : Inputs.Gapless arity (g.incoming node.id) → g.FeedsPositions registry node
  /-- A gap is seen in the expression, unless it is filled with null from the target schema or it is
  the first operand of a switch that has nothing to compare it with. -/
  gap : (∀ e ∈ g.incoming node.id, e.source ≠ .target) →
    (node.kind.rule = .switch → Rule.cases node.config ≠ []) →
    g.FeedsPositions registry node → Inputs.Gapless arity (g.incoming node.id)

/-- **Inputs are taken by rank.**  If the edges into a node have positions of their own, then each
feeds the operand of its rank, and that is the operand of its position exactly if no position is
left free. -/
theorem exprOf_feedsByRank (hregistered : registry.contains node.kind)
    (harity : node.kind.rule.arity? node.config = some arity)
    (hpositioned : Inputs.Positioned (g.incoming node.id)) : g.FeedsByRank registry node arity where
  operands := exprOf_eq_fill hregistered harity
  rank e he n hn := by
    rw [Inputs.collect, List.getElem?_map, Inputs.getElem?_ordered hpositioned he hn,
      Option.map_some]
  gapless := feedsPositions_of_gapless hregistered harity hpositioned
  gap := gapless_of_feedsPositions hregistered harity hpositioned

/-- Part of a code from the second character on, three characters of it unless the size is wired.
It is, but the start is not. -/
def cut : Node :=
  ⟨"cut", .substring, none, .object [("length", .ofNat 3), ("start", .ofNat 2)]⟩

/-- The inputs of `cut`. -/
def sizedCut : Graph where
  nodes := [cut]
  edges :=
    [⟨"e1", .source, some "$.code", .node "cut", some "input-0"⟩,
     ⟨"e2", .source, some "$.size", .node "cut", some "input-2"⟩]

theorem positioned_sizedCut : Inputs.Positioned (sizedCut.incoming cut.id) where
  isSome := by decide
  nodup := by decide

theorem feedsByRank_sizedCut :
    Registry.standard.contains cut.kind ∧ cut.kind.rule.arity? cut.config = some 3 ∧
      Inputs.Positioned (sizedCut.incoming cut.id) ∧
      sizedCut.FeedsByRank Registry.standard cut 3 :=
  ⟨by decide, rfl, positioned_sizedCut, exprOf_feedsByRank (by decide) rfl positioned_sizedCut⟩

/-- The size takes the place of the start, and the length is as set. -/
theorem not_feedsPositions_sizedCut :
    Inputs.Positioned (sizedCut.incoming cut.id) ∧
      sizedCut.exprOf Registry.standard cut =
        .call "substring" [.field "code", .field "size", .ofJson (.ofNat 3)] none ∧
      ¬ sizedCut.FeedsPositions Registry.standard cut := by
  have hexpr : sizedCut.exprOf Registry.standard cut =
      .call "substring" [.field "code", .field "size", .ofJson (.ofNat 3)] none := rfl
  refine ⟨positioned_sizedCut, hexpr, fun h ↦ ?_⟩
  have hclaimed : cut.kind.rule.fill cut (fun n ↦
      (Inputs.at? (sizedCut.incoming cut.id) n).getD (cut.kind.rule.unwired cut.config n)) =
        .call "substring" [.field "code", .ofJson (.ofNat 2), .field "size"] none := rfl
  have hargs := (Expr.call.inj (hexpr.symm.trans (h.trans hclaimed))).2.1
  cases (List.cons.inj (List.cons.inj hargs).2).1

end Graph

end MappingGraph
