import MappingGraph.Proofs.Expr.Refs

/-!
# The laws of substitution

An expression is a tree whose leaves may be references, and `mapRefs` puts trees in their places: it
is the substitution of a monad, with a reference as the unit.  `visitM` goes over an expression and
does something for every reference, which is all that is wanted where the references themselves
matter.  The two walk through the nine forms of expressions separately, and what a compilation
remembers and reports depends on the order in which they come to the references.

`Expr.SubstitutionLaw` says that substitution is lawful and that both walks have one order.
-/

set_option autoImplicit false

namespace MappingGraph

namespace Expr

variable {ρ σ : Type}

/-- Does something for every reference, from left to right. -/
def visitM {m : Type → Type} [Monad m] (f : ρ → m Unit) : Expr ρ → m Unit
  | literal _ _ | field _ => pure ()
  | binary _ left right => do
    left.visitM f
    right.visitM f
  | unary _ operand => operand.visitM f
  | call _ args _ => visitListM f args
  | conditional condition yes no => do
    condition.visitM f
    yes.visitM f
    no.visitM f
  | array elements => visitListM f elements
  | object entries => visitEntriesM f entries
  | reference target => f target
where
  visitListM {m : Type → Type} [Monad m] (f : ρ → m Unit) : List (Expr ρ) → m Unit
    | [] => pure ()
    | x :: xs => do
      x.visitM f
      visitListM f xs
  visitEntriesM {m : Type → Type} [Monad m] (f : ρ → m Unit) : List (String × Expr ρ) → m Unit
    | [] => pure ()
    | (_, x) :: es => do
      x.visitM f
      visitEntriesM f es

section Visit

variable {m : Type → Type} [Monad m] [LawfulMonad m] {f : ρ → m Unit}

theorem visitListM_eq_forM {xs : List (Expr ρ)}
    (hx : ∀ x ∈ xs, x.visitM f = forM x.refs f) :
    visitM.visitListM f xs = forM (xs.flatMap refs) f := by
  induction xs with
  | nil => rfl
  | cons x xs ih =>
    rw [visitM.visitListM, List.flatMap_cons, List.forM_append, hx x List.mem_cons_self,
      ih fun y hy ↦ hx y (List.mem_cons_of_mem x hy)]

theorem visitEntriesM_eq_forM {es : List (String × Expr ρ)}
    (he : ∀ p ∈ es, p.2.visitM f = forM p.2.refs f) :
    visitM.visitEntriesM f es = forM (es.flatMap fun p ↦ p.2.refs) f := by
  induction es with
  | nil => rfl
  | cons p es ih =>
    rw [visitM.visitEntriesM, List.flatMap_cons, List.forM_append, he p List.mem_cons_self,
      ih fun q hq ↦ he q (List.mem_cons_of_mem p hq)]

/-- Visiting comes to the references in the order of `refs`, to each occurrence once. -/
theorem visitM_eq_forM (f : ρ → m Unit) (e : Expr ρ) : e.visitM f = forM e.refs f := by
  induction e using ind with
  | literal | field => rfl
  | binary op l r ihl ihr => rw [visitM, refs, List.forM_append, ihl, ihr]
  | unary op x ih => rw [visitM, refs, ih]
  | conditional c y n ihc ihy ihn =>
    rw [visitM, refs, List.append_assoc, List.forM_append, List.forM_append, ihc, ihy, ihn]
  | call fn args c ih => rw [visitM, refs, refsOfList_eq_flatMap, visitListM_eq_forM ih]
  | array xs ih => rw [visitM, refs, refsOfList_eq_flatMap, visitListM_eq_forM ih]
  | object es ih => rw [visitM, refs, refsOfEntries_eq_flatMap, visitEntriesM_eq_forM ih]
  | reference r => simp [visitM, refs]

end Visit

theorem discard_mapM {m : Type → Type} [Monad m] [LawfulMonad m] {α β : Type} (f : α → m β)
    (xs : List α) : (do let _ ← xs.mapM f) = forM xs fun x ↦ (do let _ ← f x) := by
  induction xs with
  | nil => simp
  | cons x xs ih =>
    rw [List.forM_cons, ← ih]
    simp

/-! ## The references of answers -/

section Answers

variable {α β : Type} {seen : List σ} {fill : StateM (List (Expr σ)) α} {v : α → List σ}
  {w : β → List σ}

/-- What fills in expressions uses them off the front of a row, and the references of its outcome are
those seen before and then theirs. -/
def Consumes (seen : List σ) (fill : StateM (List (Expr σ)) α) (v : α → List σ) : Prop :=
  ∀ row, ∃ used, row = used ++ (fill.run row).2 ∧ v (fill.run row).1 = seen ++ used.flatMap refs

namespace Consumes

theorem after (h : Consumes [] fill v) (seen : List σ) : Consumes seen fill (seen ++ v ·) := by
  intro row
  obtain ⟨used, hrow, hrefs⟩ := h row
  exact ⟨used, hrow, congrArg (seen ++ ·) hrefs⟩

theorem map {g : α → β} (h : Consumes seen fill v) (hg : ∀ a, w (g a) = v a) :
    Consumes seen (do return g (← fill)) w := by
  intro row
  obtain ⟨used, hrow, hrefs⟩ := h row
  exact ⟨used, hrow, (hg _).trans hrefs⟩

theorem bind {k : α → StateM (List (Expr σ)) β} (h : Consumes seen fill v)
    (hk : ∀ a, Consumes (v a) (k a) w) : Consumes seen (fill >>= k) w := by
  intro row
  obtain ⟨used, hrow, hrefs⟩ := h row
  obtain ⟨used', hrow', hrefs'⟩ := hk (fill.run row).1 (fill.run row).2
  refine ⟨used ++ used', ?_, ?_⟩
  · show row = used ++ used' ++ ((k (fill.run row).1).run (fill.run row).2).2
    rw [List.append_assoc, ← hrow', ← hrow]
  · show w ((k (fill.run row).1).run (fill.run row).2).1 = _
    rw [hrefs', hrefs, List.flatMap_append, List.append_assoc]

theorem mapM {k : α → StateM (List (Expr σ)) β} (xs : List α)
    (hk : ∀ x ∈ xs, Consumes [] (k x) w) : Consumes [] (xs.mapM k) (List.flatMap w) := by
  induction xs with
  | nil => exact fun row ↦ ⟨[], rfl, rfl⟩
  | cons x xs ih =>
    rw [List.mapM_cons]
    refine (hk x List.mem_cons_self).bind fun y ↦ ?_
    exact ((ih fun z hz ↦ hk z (List.mem_cons_of_mem x hz)).after _).map fun _ ↦ List.flatMap_cons

end Consumes

theorem consumes_mapRefsM (e : Expr ρ) :
    Consumes [] (e.mapRefsM fun _ ↦ takeFirst) (refs (ρ := σ)) := by
  induction e using ind with
  | literal | field => exact fun row ↦ ⟨[], rfl, rfl⟩
  | binary op l r ihl ihr => exact ihl.bind fun x ↦ (ihr.after x.refs).map fun _ ↦ rfl
  | unary op x ih => exact ih.map fun _ ↦ rfl
  | conditional c y n ihc ihy ihn =>
    exact ihc.bind fun c ↦ (ihy.after c.refs).bind fun y ↦ (ihn.after _).map fun _ ↦ rfl
  | call fn args c ih =>
    rw [mapRefsM, mapListM_eq_mapM]
    exact (Consumes.mapM args ih).map fun xs ↦ refsOfList_eq_flatMap xs
  | array xs ih =>
    rw [mapRefsM, mapListM_eq_mapM]
    exact (Consumes.mapM xs ih).map fun xs ↦ refsOfList_eq_flatMap xs
  | object es ih =>
    rw [mapRefsM, mapEntriesM_eq_mapM]
    have hentry : ∀ p ∈ es, Consumes []
        (do return (p.1, ← p.2.mapRefsM fun _ ↦ takeFirst)) fun q : String × Expr σ ↦ q.2.refs :=
      fun p hp ↦ (ih p hp).map fun _ ↦ rfl
    exact (Consumes.mapM es hentry).map fun es ↦ refsOfEntries_eq_flatMap es
  | reference r =>
    intro row
    cases row with
    | nil => exact ⟨[], rfl, rfl⟩
    | cons x row => exact ⟨[x], rfl, (List.flatMap_singleton _ _).symm⟩

/-- **With an effect the references of the outcome are those of the answers**, in turn. -/
theorem refs_mapRefsM {S : Type} (f : ρ → StateM S (Expr σ)) (e : Expr ρ) (s : S) :
    ((e.mapRefsM f).run s).1.refs = ((e.refs.mapM f).run s).1.flatMap refs := by
  obtain ⟨-, hfill⟩ := factors_mapRefsM f e s []
  obtain ⟨used, hused, hrefs⟩ := consumes_mapRefsM (σ := σ) e (((e.refs.mapM f).run s).1 ++ [])
  rw [hfill, List.append_nil, List.append_nil] at hused
  rw [hfill] at hrefs
  rw [hused, hrefs, List.nil_append]

end Answers

/-- How substitution bears on an expression. -/
structure SubstitutionLaw (e : Expr ρ) : Prop where
  /-- A reference that stands for itself changes nothing. -/
  reference : e.mapRefs reference = e
  /-- Substituting twice is substituting once. -/
  comp : ∀ {σ τ : Type} (f : ρ → Expr σ) (g : σ → Expr τ),
    (e.mapRefs f).mapRefs g = e.mapRefs fun r ↦ (f r).mapRefs g
  /-- The references of the outcome are those of what was put in, from left to right. -/
  refs : ∀ {σ : Type} (f : ρ → Expr σ), (e.mapRefs f).refs = e.refs.flatMap fun r ↦ (f r).refs
  /-- A visit comes to each of the references, from first to last. -/
  visit : ∀ {S : Type} (f : ρ → StateM S Unit), e.visitM f = forM e.refs f
  /-- With an effect, substituting computes something for each of the references, from first to
  last, and puts the answers in. -/
  effect : ∀ {σ S : Type} (f : ρ → StateM S (Expr σ)),
    e.mapRefsM f = do return e.plug (← e.refs.mapM f)
  /-- The references of the outcome are then those of the answers. -/
  answers : ∀ {σ S : Type} (f : ρ → StateM S (Expr σ)) (s : S),
    ((e.mapRefsM f).run s).1.refs = ((e.refs.mapM f).run s).1.flatMap Expr.refs
  /-- If nothing but the effect matters, it is a visit. -/
  agree : ∀ {σ S : Type} (f : ρ → StateM S (Expr σ)),
    (do let _ ← e.mapRefsM f) = e.visitM fun r ↦ (do let _ ← f r)
  /-- Without an effect it is `mapRefs`. -/
  pure : ∀ {σ S : Type} (f : ρ → Expr σ),
    e.mapRefsM (fun r ↦ (pure (f r) : StateM S (Expr σ))) = pure (e.mapRefs f)

/-- **Substitution is lawful**, and comes to the references in the order of a visit. -/
theorem substitutionLaw (e : Expr ρ) : e.SubstitutionLaw where
  reference := mapRefs_reference e
  comp f g := mapRefs_mapRefs f g e
  refs f := refs_mapRefs f e
  visit f := visitM_eq_forM f e
  effect f := mapRefsM_eq f e
  answers f := refs_mapRefsM f e
  agree f := by
    rw [mapRefsM_eq, visitM_eq_forM, ← discard_mapM, bind_assoc]
    rfl
  pure f := mapRefsM_pure f e

end Expr

end MappingGraph
