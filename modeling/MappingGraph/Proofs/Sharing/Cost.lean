import MappingGraph.Proofs.Purity

/-!
# Nothing cheap is shared

Whether a value costs enough to be shared is decided before its placeholders are resolved.  The
expression that is emitted then has whole expressions in their places, or references to other shared
values.  It never costs less: a placeholder costs one, which is the least that any expression costs,
and every operation puts the costs of its operands together by sums and maxima
(`Expr.mapRefsM_cost`, `Expr.cost_le_cost_mapRefs`).  So the bound of the options holds of the
output too, and a shared value is no mere name for another one.
-/

set_option autoImplicit false

namespace MappingGraph

namespace Expr

variable {ρ σ S : Type} {e : Expr ρ}

/-! ## Leaves -/

/-- A bare literal, field or reference. -/
def IsLeaf : Expr ρ → Prop
  | literal _ _ | field _ | reference _ => True
  | _ => False

theorem one_le_cost (e : Expr ρ) : 1 ≤ e.cost := by
  cases e <;> simp only [cost] <;> omega

/-- The leaves are the cheapest expressions. -/
theorem cost_eq_one_iff : e.cost = 1 ↔ e.IsLeaf := by
  cases e with
  | literal | field | reference => simp [cost, IsLeaf]
  | binary | unary | call | conditional | array | object =>
    simp only [cost, IsLeaf, iff_false]
    omega

/-! ## Costs under substitution -/

/-- A comparison of costs that sums and maxima keep. -/
structure ComparesCosts (R : Nat → Nat → Prop) : Prop where
  refl : ∀ n, R n n
  add : ∀ {k l m n}, R k l → R m n → R (k + m) (l + n)
  max : ∀ {k l m n}, R k l → R m n → R (max k m) (max l n)

theorem comparesCosts_le : ComparesCosts (· ≤ ·) :=
  ⟨Nat.le_refl, Nat.add_le_add, fun _ _ ↦ by omega⟩

theorem comparesCosts_eq : ComparesCosts (· = ·) :=
  ⟨fun _ ↦ rfl, congrArg₂ _, congrArg₂ _⟩

section Compare

variable {R : Nat → Nat → Prop} {f : ρ → StateM S (Expr σ)}

theorem mapListM_cost (hR : ComparesCosts R) {xs : List (Expr ρ)}
    (hx : ∀ x ∈ xs, Answers (fun y ↦ R x.cost y.cost) (x.mapRefsM f)) :
    Answers (fun ys ↦ R (cost.costOfList xs) (cost.costOfList ys)) (mapRefsM.mapListM f xs) := by
  induction xs with
  | nil => exact .pure (hR.refl 0)
  | cons x xs ih =>
    refine (hx x List.mem_cons_self).bind fun _ hy ↦ ?_
    refine (ih fun z hz ↦ hx z (List.mem_cons_of_mem x hz)).bind fun _ hys ↦ ?_
    exact .pure (hR.add hy hys)

theorem mapEntriesM_cost (hR : ComparesCosts R) {es : List (String × Expr ρ)}
    (he : ∀ p ∈ es, Answers (fun y ↦ R p.2.cost y.cost) (p.2.mapRefsM f)) :
    Answers (fun fs ↦ R (cost.costOfEntries es) (cost.costOfEntries fs))
      (mapRefsM.mapEntriesM f es) := by
  induction es with
  | nil => exact .pure (hR.refl 0)
  | cons p es ih =>
    refine (he p List.mem_cons_self).bind fun _ hy ↦ ?_
    refine (ih fun q hq ↦ he q (List.mem_cons_of_mem p hq)).bind fun _ hfs ↦ ?_
    exact .pure (hR.add hy hfs)

/-- **Costs compare as those of the references do.**  What stands in for a reference may be another
expression at each of its places. -/
theorem mapRefsM_cost (hR : ComparesCosts R) (e : Expr ρ)
    (hf : ∀ r ∈ e.refs, Answers (fun x ↦ R 1 x.cost) (f r)) :
    Answers (fun x ↦ R e.cost x.cost) (e.mapRefsM f) := by
  induction e using ind with
  | literal | field => exact .pure (hR.refl 1)
  | binary op l r ihl ihr =>
    simp only [refs, List.mem_append] at hf
    refine (ihl fun p hp ↦ hf p (.inl hp)).bind fun _ hl ↦ ?_
    refine (ihr fun p hp ↦ hf p (.inr hp)).bind fun _ hr ↦ ?_
    exact .pure (hR.add (hR.add (hR.refl 2) hl) hr)
  | unary op x ih =>
    refine (ih hf).bind fun _ hx ↦ ?_
    exact .pure (hR.add (hR.refl 2) hx)
  | conditional c y n ihc ihy ihn =>
    simp only [refs, List.mem_append] at hf
    refine (ihc fun p hp ↦ hf p (.inl (.inl hp))).bind fun _ hc ↦ ?_
    refine (ihy fun p hp ↦ hf p (.inl (.inr hp))).bind fun _ hy ↦ ?_
    refine (ihn fun p hp ↦ hf p (.inr hp)).bind fun _ hn ↦ ?_
    exact .pure (hR.add (hR.add (hR.refl 3) hc) (hR.max hy hn))
  | call fn args config ih =>
    rw [refs, refsOfList_eq_flatMap] at hf
    refine (mapListM_cost hR fun x hx ↦ ih x hx fun r hr ↦ ?_).bind fun _ hxs ↦ ?_
    · exact hf r (List.mem_flatMap.mpr ⟨x, hx, hr⟩)
    · exact .pure (hR.add (hR.refl 3) hxs)
  | array xs ih =>
    rw [refs, refsOfList_eq_flatMap] at hf
    refine (mapListM_cost hR fun x hx ↦ ih x hx fun r hr ↦ ?_).bind fun _ hxs ↦ ?_
    · exact hf r (List.mem_flatMap.mpr ⟨x, hx, hr⟩)
    · exact .pure (hR.add (hR.refl 2) hxs)
  | object es ih =>
    rw [refs, refsOfEntries_eq_flatMap] at hf
    refine (mapEntriesM_cost hR fun p hp ↦ ih p hp fun r hr ↦ ?_).bind fun _ hes ↦ ?_
    · exact hf r (List.mem_flatMap.mpr ⟨p, hp, hr⟩)
    · exact .pure (hR.add (hR.refl 2) hes)
  | reference r => exact hf r (List.mem_singleton_self r)

end Compare

/-- Without an effect the same is put in at every place of a reference. -/
theorem run_mapRefsM_pure (f : ρ → Expr σ) (e : Expr ρ) (s : S) :
    ((e.mapRefsM fun r ↦ (pure (f r) : StateM S (Expr σ))).run s).1 = e.mapRefs f := by
  rw [mapRefsM_pure]
  rfl

/-- **Substituting never makes an expression cheaper.** -/
theorem cost_le_cost_mapRefs (f : ρ → Expr σ) (e : Expr ρ) : e.cost ≤ (e.mapRefs f).cost := by
  rw [← run_mapRefsM_pure f e ()]
  exact mapRefsM_cost comparesCosts_le e (fun r _ ↦ .pure (one_le_cost (f r))) ()

/-- Nor dearer, if all that is put in is as cheap as a reference. -/
theorem cost_mapRefs_eq {f : ρ → Expr σ} (h : ∀ r ∈ e.refs, (f r).cost = 1) :
    (e.mapRefs f).cost = e.cost := by
  rw [← run_mapRefsM_pure f e ()]
  exact (mapRefsM_cost comparesCosts_eq e (fun r hr ↦ .pure (h r hr).symm) ()).symm

/-- How substituting for the references of an expression bears on its cost. -/
structure CostLaw (e : Expr ρ) : Prop where
  le : ∀ {σ : Type} (f : ρ → Expr σ), e.cost ≤ (e.mapRefs f).cost
  eq : ∀ {σ : Type} (f : ρ → Expr σ), (∀ r ∈ e.refs, (f r).cost = 1) → (e.mapRefs f).cost = e.cost
  /-- What is put in may depend on a state, and be another expression at each place. -/
  leEffect : ∀ {σ S : Type} (f : ρ → StateM S (Expr σ)),
    Answers (fun x ↦ e.cost ≤ x.cost) (e.mapRefsM f)
  eqEffect : ∀ {σ S : Type} (f : ρ → StateM S (Expr σ)),
    (∀ r ∈ e.refs, Answers (fun x ↦ x.cost = 1) (f r)) →
      Answers (fun x ↦ x.cost = e.cost) (e.mapRefsM f)

theorem costLaw (e : Expr ρ) : e.CostLaw where
  le f := cost_le_cost_mapRefs f e
  eq _ h := cost_mapRefs_eq h
  leEffect _ := mapRefsM_cost comparesCosts_le e fun _ _ _ ↦ one_le_cost _
  eqEffect _ h s :=
    (mapRefsM_cost comparesCosts_eq e (fun r hr s ↦ (h r hr s).symm) s).symm

end Expr

/-! ## What is emitted -/

namespace Compiler

variable (c : Compiler) (d : Document)

/-- A shared value costs at least as much as the expression of its node, and that costs enough. -/
theorem exists_built_of_mem_shared {s : SharedExpression} (h : s ∈ (c.compile d).output.shared) :
    ∃ x, (s.node, x) ∈ (c.stages d).output.built ∧
      c.options.minHoistCost ≤ x.cost ∧ x.cost ≤ s.expression.cost := by
  have hshareable : c.Shareable d s.node :=
    ((c.exists_shared_iff d).mp ⟨s, h, rfl⟩).2.1
  obtain ⟨x, hx, hworth⟩ := hshareable
  have hvalue : s.expression = (c.resolver d).value s.node := by
    obtain ⟨n, _, rfl⟩ := List.mem_map.mp ((c.mem_shared_iff d).mp h).1
    rfl
  refine ⟨x, hx, (Graph.isShareable_iff.mp hworth).2.2.2, ?_⟩
  rw [hvalue, Resolver.value_eq (c.resolver_latestFirst d) ((c.mem_latestFirst_iff d).mpr hx)]
  exact Expr.cost_le_cost_mapRefs _ x

/-- The shared values of a compilation cost what the options ask for. -/
structure CostsEnough : Prop where
  cost : ∀ s ∈ (c.compile d).output.shared, c.options.minHoistCost ≤ s.expression.cost
  /-- The cost that was looked at is that of the node's own expression, and resolving it has not
  lowered it. -/
  built : ∀ s ∈ (c.compile d).output.shared, ∃ x, (s.node, x) ∈ (c.stages d).output.built ∧
    c.options.minHoistCost ≤ x.cost ∧ x.cost ≤ s.expression.cost
  /-- None is a mere literal or field, or a name for another shared value. -/
  notLeaf : 2 ≤ c.options.minHoistCost →
    ∀ s ∈ (c.compile d).output.shared, ¬ s.expression.IsLeaf

/-- **What is shared costs enough**, also once its placeholders are resolved, because resolving never
lowers a cost. -/
theorem compile_costsEnough : c.CostsEnough d ∧ ∀ {ρ : Type} (e : Expr ρ), e.CostLaw := by
  have hcost : ∀ s ∈ (c.compile d).output.shared,
      c.options.minHoistCost ≤ s.expression.cost := fun s hs ↦ by
    obtain ⟨x, _, henough, hle⟩ := c.exists_built_of_mem_shared d hs
    exact Nat.le_trans henough hle
  refine ⟨⟨hcost, fun _ ↦ c.exists_built_of_mem_shared d, fun htwo s hs hleaf ↦ ?_⟩, Expr.costLaw⟩
  have hle := hcost s hs
  rw [Expr.cost_eq_one_iff.mpr hleaf] at hle
  omega

end Compiler

end MappingGraph
