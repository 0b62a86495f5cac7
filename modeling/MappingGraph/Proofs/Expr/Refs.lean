import MappingGraph.Expr.Basic
import MappingGraph.Proofs.Stateful

/-!
# Substitution for references

`mapRefs` puts an expression in the place of every reference and `refs` lists the references from
left to right.  Lists of arguments and of entries have helpers of their own in the definitions,
because that is how a nested recursion has to be written; here they are turned into `map` and
`flatMap` once, and `Expr.ind` is the induction that goes with it.

What is here:

* `mapRefs_congr` — only what stands for the references that occur matters;
* `mapRefs_mapRefs` and `refs_mapRefs` — substituting twice is substituting once, and the
  references of the outcome are those of what was put in;
* `mapRefsM_eq` — with an effect, the references are met one after the other in the order of `refs`,
  each occurrence once, and their answers are then put in (`plug`).  What is known of a run over a
  list is thereby known of a run over an expression: `mapRefsM_runs` for any bookkeeping of the state
  that a single reference advances in a known way, `mapRefsM_leavesAlone` for what no reference
  changes.
-/

set_option autoImplicit false

namespace MappingGraph

namespace Expr

variable {ρ σ τ : Type}

/-! ## Arguments and entries as lists -/

theorem mapList_eq_map (f : ρ → Expr σ) (xs : List (Expr ρ)) :
    mapRefs.mapList f xs = xs.map (mapRefs f) := by
  induction xs with
  | nil => rfl
  | cons x xs ih => rw [mapRefs.mapList, ih, List.map_cons]

theorem mapEntries_eq_map (f : ρ → Expr σ) (es : List (String × Expr ρ)) :
    mapRefs.mapEntries f es = es.map fun p ↦ (p.1, p.2.mapRefs f) := by
  induction es with
  | nil => rfl
  | cons p es ih => rw [mapRefs.mapEntries, ih, List.map_cons]

theorem refsOfList_eq_flatMap (xs : List (Expr ρ)) : refs.refsOfList xs = xs.flatMap refs := by
  induction xs with
  | nil => rfl
  | cons x xs ih => rw [refs.refsOfList, ih, List.flatMap_cons]

theorem refsOfEntries_eq_flatMap (es : List (String × Expr ρ)) :
    refs.refsOfEntries es = es.flatMap fun p ↦ p.2.refs := by
  induction es with
  | nil => rfl
  | cons p es ih => rw [refs.refsOfEntries, ih, List.flatMap_cons]

/-- Induction over an expression, with the hypothesis for every argument and every entry. -/
@[elab_as_elim]
theorem ind {P : Expr ρ → Prop} (literal : ∀ value type, P (.literal value type))
    (field : ∀ path, P (.field path))
    (binary : ∀ op left right, P left → P right → P (.binary op left right))
    (unary : ∀ op operand, P operand → P (.unary op operand))
    (call : ∀ function args config, (∀ x ∈ args, P x) → P (.call function args config))
    (conditional : ∀ condition yes no, P condition → P yes → P no →
      P (.conditional condition yes no))
    (array : ∀ elements, (∀ x ∈ elements, P x) → P (.array elements))
    (object : ∀ entries : List (String × Expr ρ), (∀ p ∈ entries, P p.2) → P (.object entries))
    (reference : ∀ target, P (.reference target)) (e : Expr ρ) : P e :=
  @Expr.rec ρ P (fun xs ↦ ∀ x ∈ xs, P x) (fun es ↦ ∀ p ∈ es, P p.2) (fun p ↦ P p.2)
    literal field binary unary call conditional array object reference
    (fun _ h ↦ absurd h List.not_mem_nil)
    (fun _ _ hx hxs y hy ↦ (List.mem_cons.mp hy).elim (fun h ↦ h ▸ hx) (hxs y))
    (fun _ h ↦ absurd h List.not_mem_nil)
    (fun _ _ hp hes q hq ↦ (List.mem_cons.mp hq).elim (fun h ↦ h ▸ hp) (hes q))
    (fun _ _ hx ↦ hx) e

/-! ## Laws -/

/-- Only what stands for the references that occur matters. -/
theorem mapRefs_congr {f g : ρ → Expr σ} {e : Expr ρ} (h : ∀ r ∈ e.refs, f r = g r) :
    e.mapRefs f = e.mapRefs g := by
  induction e using ind with
  | literal | field => rfl
  | binary op l r ihl ihr =>
    rw [refs] at h
    rw [mapRefs, mapRefs, ihl fun p hp ↦ h p (List.mem_append_left _ hp),
      ihr fun p hp ↦ h p (List.mem_append_right _ hp)]
  | unary op x ih => rw [mapRefs, mapRefs, ih h]
  | call fn args c ih =>
    rw [refs, refsOfList_eq_flatMap] at h
    rw [mapRefs, mapRefs, mapList_eq_map, mapList_eq_map, List.map_congr_left fun x hx ↦
      ih x hx fun r hr ↦ h r (List.mem_flatMap.mpr ⟨x, hx, hr⟩)]
  | conditional c y n ihc ihy ihn =>
    simp only [refs, List.mem_append] at h
    rw [mapRefs, mapRefs, ihc fun p hp ↦ h p (.inl (.inl hp)),
      ihy fun p hp ↦ h p (.inl (.inr hp)), ihn fun p hp ↦ h p (.inr hp)]
  | array xs ih =>
    rw [refs, refsOfList_eq_flatMap] at h
    rw [mapRefs, mapRefs, mapList_eq_map, mapList_eq_map, List.map_congr_left fun x hx ↦
      ih x hx fun r hr ↦ h r (List.mem_flatMap.mpr ⟨x, hx, hr⟩)]
  | object es ih =>
    rw [refs, refsOfEntries_eq_flatMap] at h
    rw [mapRefs, mapRefs, mapEntries_eq_map, mapEntries_eq_map, List.map_congr_left fun p hp ↦ by
      rw [ih p hp fun r hr ↦ h r (List.mem_flatMap.mpr ⟨p, hp, hr⟩)]]
  | reference r => exact h r (List.mem_singleton_self r)

/-- Substituting twice is substituting once. -/
theorem mapRefs_mapRefs (f : ρ → Expr σ) (g : σ → Expr τ) (e : Expr ρ) :
    (e.mapRefs f).mapRefs g = e.mapRefs fun r ↦ (f r).mapRefs g := by
  induction e using ind with
  | literal | field | reference => rfl
  | binary op l r ihl ihr => simp only [mapRefs, ihl, ihr]
  | unary op x ih => simp only [mapRefs, ih]
  | conditional c y n ihc ihy ihn => simp only [mapRefs, ihc, ihy, ihn]
  | call fn args c ih =>
    simp only [mapRefs, mapList_eq_map, List.map_map, Function.comp_def]
    rw [List.map_congr_left fun x hx ↦ ih x hx]
  | array xs ih =>
    simp only [mapRefs, mapList_eq_map, List.map_map, Function.comp_def]
    rw [List.map_congr_left fun x hx ↦ ih x hx]
  | object es ih =>
    simp only [mapRefs, mapEntries_eq_map, List.map_map, Function.comp_def]
    rw [List.map_congr_left fun p hp ↦ congrArg (Prod.mk p.1) (ih p hp)]

/-- A reference that stands for itself changes nothing. -/
theorem mapRefs_reference (e : Expr ρ) : e.mapRefs reference = e := by
  induction e using ind with
  | literal | field | reference => rfl
  | binary op l r ihl ihr => rw [mapRefs, ihl, ihr]
  | unary op x ih => rw [mapRefs, ih]
  | conditional c y n ihc ihy ihn => rw [mapRefs, ihc, ihy, ihn]
  | call fn args c ih => rw [mapRefs, mapList_eq_map, List.map_congr_left ih, List.map_id']
  | array xs ih => rw [mapRefs, mapList_eq_map, List.map_congr_left ih, List.map_id']
  | object es ih =>
    rw [mapRefs, mapEntries_eq_map,
      List.map_congr_left fun p hp ↦ congrArg (Prod.mk p.1) (ih p hp), List.map_id']

/-- The references of the outcome are those of what was put in, from left to right. -/
theorem refs_mapRefs (f : ρ → Expr σ) (e : Expr ρ) :
    (e.mapRefs f).refs = e.refs.flatMap fun r ↦ (f r).refs := by
  induction e using ind with
  | literal | field => rfl
  | binary op l r ihl ihr => rw [mapRefs, refs, refs, ihl, ihr, List.flatMap_append]
  | unary op x ih => rw [mapRefs, refs, refs, ih]
  | conditional c y n ihc ihy ihn =>
    rw [mapRefs, refs, refs, ihc, ihy, ihn, List.flatMap_append, List.flatMap_append]
  | call fn args c ih =>
    simp only [mapRefs, refs, mapList_eq_map, refsOfList_eq_flatMap, List.flatMap_map,
      List.flatMap_assoc]
    rw [List.flatMap_congr fun x hx ↦ ih x hx]
  | array xs ih =>
    simp only [mapRefs, refs, mapList_eq_map, refsOfList_eq_flatMap, List.flatMap_map,
      List.flatMap_assoc]
    rw [List.flatMap_congr fun x hx ↦ ih x hx]
  | object es ih =>
    simp only [mapRefs, refs, mapEntries_eq_map, refsOfEntries_eq_flatMap, List.flatMap_map,
      List.flatMap_assoc]
    rw [List.flatMap_congr fun p hp ↦ ih p hp]
  | reference r => rw [mapRefs, refs, List.flatMap_singleton]

theorem mem_refs_mapRefs {f : ρ → Expr σ} {e : Expr ρ} {r : σ} :
    r ∈ (e.mapRefs f).refs ↔ ∃ p ∈ e.refs, r ∈ (f p).refs := by
  rw [refs_mapRefs, List.mem_flatMap]

/-! ## With an effect -/

section Effect

variable {S γ : Type} {inv : γ → S → Prop} {step : γ → ρ → γ} {f : ρ → StateM S (Expr σ)}
  {h : ρ → Expr σ}

theorem mapM_congr {m : Type → Type} [Monad m] [LawfulMonad m] {α β : Type} {k k' : α → m β}
    {xs : List α} (hk : ∀ x ∈ xs, k x = k' x) : xs.mapM k = xs.mapM k' := by
  induction xs with
  | nil => rfl
  | cons x xs ih =>
    rw [List.mapM_cons, List.mapM_cons, hk x List.mem_cons_self,
      ih fun y hy ↦ hk y (List.mem_cons_of_mem x hy)]

theorem mapListM_eq_mapM {m : Type → Type} [Monad m] [LawfulMonad m] (f : ρ → m (Expr σ))
    (xs : List (Expr ρ)) : mapRefsM.mapListM f xs = xs.mapM (mapRefsM f) := by
  induction xs with
  | nil => simp [mapRefsM.mapListM]
  | cons x xs ih => rw [mapRefsM.mapListM, ih, List.mapM_cons]

theorem mapEntriesM_eq_mapM {m : Type → Type} [Monad m] [LawfulMonad m] (f : ρ → m (Expr σ))
    (es : List (String × Expr ρ)) :
    mapRefsM.mapEntriesM f es = es.mapM fun p ↦ do return (p.1, ← p.2.mapRefsM f) := by
  induction es with
  | nil => simp [mapRefsM.mapEntriesM]
  | cons p es ih => simp [mapRefsM.mapEntriesM, ih]

/-- Without an effect nothing else happens than that the references are replaced. -/
theorem mapRefsM_pure {m : Type → Type} [Monad m] [LawfulMonad m] (h : ρ → Expr σ) (e : Expr ρ) :
    e.mapRefsM (fun r ↦ (pure (h r) : m (Expr σ))) = pure (e.mapRefs h) := by
  induction e using ind with
  | literal | field | reference => rfl
  | binary op l r ihl ihr => simp only [mapRefsM, mapRefs, ihl, ihr, pure_bind]
  | unary op x ih => simp only [mapRefsM, mapRefs, ih, pure_bind]
  | conditional c y n ihc ihy ihn => simp only [mapRefsM, mapRefs, ihc, ihy, ihn, pure_bind]
  | call fn args c ih =>
    rw [mapRefsM, mapRefs, mapListM_eq_mapM, mapList_eq_map, mapM_congr ih, List.mapM_pure,
      pure_bind]
  | array xs ih =>
    rw [mapRefsM, mapRefs, mapListM_eq_mapM, mapList_eq_map, mapM_congr ih, List.mapM_pure,
      pure_bind]
  | object es ih =>
    rw [mapRefsM, mapRefs, mapEntriesM_eq_mapM, mapEntries_eq_map, mapM_congr fun p hp ↦ by
      rw [ih p hp, pure_bind], List.mapM_pure, pure_bind]

/-- Takes the first expression of a row. -/
def takeFirst : StateM (List (Expr σ)) (Expr σ) := fun xs ↦ (xs.head?.getD null, xs.tail)

/-- The expression with those of a row in the places of its references, from left to right. -/
def plug (e : Expr ρ) (xs : List (Expr σ)) : Expr σ := ((e.mapRefsM fun _ ↦ takeFirst).run xs).1

/-- From every state `x` leaves what the calls leave, and answers what comes of filling in their
answers, of which none is left over. -/
def Factors {α : Type} (x : StateM S α) (calls : StateM S (List (Expr σ)))
    (fill : StateM (List (Expr σ)) α) : Prop :=
  ∀ s rest, (calls.run s).2 = (x.run s).2 ∧
    fill.run ((calls.run s).1 ++ rest) = ((x.run s).1, rest)

namespace Factors

variable {α β : Type} {x : StateM S α} {calls calls' : StateM S (List (Expr σ))}
  {fill : StateM (List (Expr σ)) α}

protected theorem pure (a : α) : Factors (σ := σ) (pure a : StateM S α) (pure []) (pure a) :=
  fun _ _ ↦ ⟨rfl, rfl⟩

theorem map (hx : Factors x calls fill) (g : α → β) :
    Factors (do return g (← x)) calls (do return g (← fill)) := by
  intro s rest
  obtain ⟨hstate, hfill⟩ := hx s rest
  refine ⟨hstate, ?_⟩
  rw [StateT.run_bind, hfill]
  rfl

theorem bind {k : α → StateM S β} {fill' : α → StateM (List (Expr σ)) β}
    (hx : Factors x calls fill) (hk : ∀ a, Factors (k a) calls' (fill' a)) :
    Factors (x >>= k) (do return (← calls) ++ (← calls')) (fill >>= fill') := by
  intro s rest
  obtain ⟨hstate, hfill⟩ := hx s ((calls'.run (calls.run s).2).1 ++ rest)
  obtain ⟨hstate', hfill'⟩ := hk (x.run s).1 (x.run s).2 rest
  rw [hstate] at hfill
  constructor
  · show (calls'.run (calls.run s).2).2 = ((k (x.run s).1).run (x.run s).2).2
    rw [hstate, hstate']
  · show (fill >>= fill').run ((calls.run s).1 ++ (calls'.run (calls.run s).2).1 ++ rest) = _
    rw [List.append_assoc, StateT.run_bind, hstate, hfill]
    exact hfill'

/-- Arguments, elements and entries all make their calls in the same way. -/
theorem mapM {parts : α → List ρ} {k : α → StateM S β} {fill : α → StateM (List (Expr σ)) β}
    (xs : List α) (hk : ∀ x ∈ xs, Factors (k x) ((parts x).mapM f) (fill x)) :
    Factors (xs.mapM k) ((xs.flatMap parts).mapM f) (xs.mapM fill) := by
  induction xs with
  | nil => simpa using .pure []
  | cons x xs ih =>
    rw [List.mapM_cons, List.flatMap_cons, List.mapM_append, List.mapM_cons]
    refine (hk x List.mem_cons_self).bind fun y ↦ ?_
    exact (ih fun z hz ↦ hk z (List.mem_cons_of_mem x hz)).map (y :: ·)

end Factors

theorem factors_mapRefsM (f : ρ → StateM S (Expr σ)) (e : Expr ρ) :
    Factors (e.mapRefsM f) (e.refs.mapM f) (e.mapRefsM fun _ ↦ takeFirst) := by
  induction e using ind with
  | literal | field => exact .pure _
  | binary op l r ihl ihr =>
    rw [refs, List.mapM_append]
    exact ihl.bind fun x ↦ ihr.map (binary op x)
  | unary op x ih => exact ih.map (unary op)
  | conditional c y n ihc ihy ihn =>
    rw [refs, List.append_assoc, List.mapM_append, List.mapM_append]
    exact ihc.bind fun c ↦ ihy.bind fun y ↦ ihn.map (conditional c y)
  | call fn args c ih =>
    rw [refs, refsOfList_eq_flatMap, mapRefsM, mapRefsM, mapListM_eq_mapM, mapListM_eq_mapM]
    exact (Factors.mapM args ih).map (call fn · c)
  | array xs ih =>
    rw [refs, refsOfList_eq_flatMap, mapRefsM, mapRefsM, mapListM_eq_mapM, mapListM_eq_mapM]
    exact (Factors.mapM xs ih).map array
  | object es ih =>
    rw [refs, refsOfEntries_eq_flatMap, mapRefsM, mapRefsM, mapEntriesM_eq_mapM,
      mapEntriesM_eq_mapM]
    exact (Factors.mapM es fun p hp ↦ (ih p hp).map (Prod.mk p.1)).map object
  | reference r =>
    rw [refs, List.mapM_cons, List.mapM_nil]
    exact fun _ _ ↦ ⟨rfl, rfl⟩

/-- **The references are met in the order of `refs`**, each occurrence once, and nothing else has an
effect: what is done for the whole expression is what is done for the list of its references. -/
theorem mapRefsM_eq (f : ρ → StateM S (Expr σ)) (e : Expr ρ) :
    e.mapRefsM f = do return e.plug (← e.refs.mapM f) := by
  refine StateT.ext fun s ↦ ?_
  obtain ⟨hstate, hfill⟩ := factors_mapRefsM f e s []
  rw [List.append_nil] at hfill
  refine Prod.ext ?_ hstate.symm
  show _ = ((e.mapRefsM fun _ ↦ takeFirst).run ((e.refs.mapM f).run s).1).1
  rw [hfill]

theorem plug_map (h : ρ → Expr σ) (e : Expr ρ) : e.plug (e.refs.map h) = e.mapRefs h := by
  have hrun := mapRefsM_eq (S := Unit) (fun r ↦ pure (h r)) e
  rw [mapRefsM_pure, List.mapM_pure, pure_bind] at hrun
  exact congrArg Prod.fst (congrFun hrun ()).symm

/-- A bookkeeping that a single reference moves on by `step` is moved on by all of them in turn. -/
theorem mapRefsM_runs (e : Expr ρ)
    (hf : ∀ r ∈ e.refs, ∀ g, Runs (inv g) (f r) (h r) (inv (step g r))) (g : γ) :
    Runs (inv g) (e.mapRefsM f) (e.mapRefs h) (inv (e.refs.foldl step g)) := by
  rw [mapRefsM_eq, ← plug_map]
  exact (Runs.mapM e.refs hf g).bind (Runs.pure _ _)

/-- Only what is done for the references that occur matters. -/
theorem mapRefsM_congr {f' : ρ → StateM S (Expr σ)} {e : Expr ρ}
    (hf : ∀ r ∈ e.refs, f r = f' r) : e.mapRefsM f = e.mapRefsM f' := by
  rw [mapRefsM_eq, mapRefsM_eq, mapM_congr hf]

/-- What every reference keeps, the whole expression keeps. -/
theorem mapRefsM_keeps {I : S → Prop} (e : Expr ρ) (hf : ∀ r ∈ e.refs, Runs I (f r) (h r) I) :
    Runs I (e.mapRefsM f) (e.mapRefs h) I :=
  @mapRefsM_runs ρ σ S Unit (fun _ ↦ I) (fun g _ ↦ g) f h e (fun r hr _ ↦ hf r hr) ()

/-- What every reference leaves alone, the whole expression leaves alone. -/
theorem mapRefsM_leavesAlone {τ : Type} {view : S → τ} (e : Expr ρ)
    (hf : ∀ r ∈ e.refs, LeavesAlone view (f r)) : LeavesAlone view (e.mapRefsM f) := by
  rw [mapRefsM_eq]
  exact (LeavesAlone.mapM e.refs hf).bind fun _ ↦ .pure _ _

end Effect

end Expr

end MappingGraph
