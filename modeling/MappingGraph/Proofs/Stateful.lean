import Mathlib.Data.List.Basic

/-!
# Stateful computations with a known answer

The resolver threads a memo and a list of reports through everything it does, and what it answers
does not depend on them.  `Runs before x a after` says so of a computation: from every state that
satisfies `before` it answers `a`, and the state it leaves satisfies `after`.  `Runs.bind` chains
two computations, and `Runs.mapM` a list of them while some bookkeeping `γ` follows the state.

`LeavesAlone view x` says less of the answer and more of the state: it may be any, and what `view`
shows of it is the same afterwards.  `Answers P x` says nothing of the state, and of the answer that
it satisfies `P`, which may be all that is known where the answer does depend on the state.
-/

set_option autoImplicit false

namespace MappingGraph

variable {σ α β : Type}

/-- From every state that satisfies `before`, the computation answers `a` and leaves a state that
satisfies `after`. -/
def Runs (before : σ → Prop) (x : StateM σ α) (a : α) (after : σ → Prop) : Prop :=
  ∀ s, before s → ∃ s', x.run s = (a, s') ∧ after s'

namespace Runs

variable {before middle after : σ → Prop} {x : StateM σ α} {a : α}

protected theorem pure (a : α) (inv : σ → Prop) : Runs inv (pure a) a inv :=
  fun s hs ↦ ⟨s, rfl, hs⟩

protected theorem bind {f : α → StateM σ β} {b : β} (hx : Runs before x a middle)
    (hf : Runs middle (f a) b after) : Runs before (x >>= f) b after := by
  intro s hs
  obtain ⟨s', hrun, hs'⟩ := hx s hs
  obtain ⟨s'', hrun', hs''⟩ := hf s' hs'
  refine ⟨s'', ?_, hs''⟩
  rw [StateT.run_bind, hrun]
  exact hrun'

/-- A list of computations runs in order; `step` says how each of them moves the bookkeeping on. -/
theorem mapM {γ : Type} {inv : γ → σ → Prop} {step : γ → α → γ} {f : α → StateM σ β}
    {h : α → β} (xs : List α)
    (hf : ∀ x ∈ xs, ∀ g, Runs (inv g) (f x) (h x) (inv (step g x))) (g : γ) :
    Runs (inv g) (xs.mapM f) (xs.map h) (inv (xs.foldl step g)) := by
  induction xs generalizing g with
  | nil =>
    rw [List.mapM_nil]
    exact Runs.pure _ _
  | cons x xs ih =>
    rw [List.mapM_cons]
    refine (hf x List.mem_cons_self g).bind ?_
    exact (ih (fun y hy ↦ hf y (List.mem_cons_of_mem x hy)) _).bind (Runs.pure _ _)

/-- What every computation keeps, the list of them keeps. -/
theorem mapM_keeps {I : σ → Prop} {f : α → StateM σ β} {h : α → β} (xs : List α)
    (hf : ∀ x ∈ xs, Runs I (f x) (h x) I) : Runs I (xs.mapM f) (xs.map h) I :=
  @mapM σ α β Unit (fun _ ↦ I) (fun g _ ↦ g) f h xs (fun x hx _ ↦ hf x hx) ()

end Runs

/-- Whatever the state, the computation does not change what `view` shows of it. -/
def LeavesAlone {τ : Type} (view : σ → τ) (x : StateM σ α) : Prop :=
  ∀ s, view (x.run s).2 = view s

namespace LeavesAlone

variable {τ : Type} {view : σ → τ} {x : StateM σ α}

protected theorem pure (view : σ → τ) (a : α) : LeavesAlone view (pure a : StateM σ α) :=
  fun _ ↦ rfl

protected theorem bind {f : α → StateM σ β} (hx : LeavesAlone view x)
    (hf : ∀ a, LeavesAlone view (f a)) : LeavesAlone view (x >>= f) := by
  intro s
  rw [StateT.run_bind]
  exact (hf _ _).trans (hx s)

theorem mapM {f : α → StateM σ β} (xs : List α) (hf : ∀ x ∈ xs, LeavesAlone view (f x)) :
    LeavesAlone view (xs.mapM f) := by
  induction xs with
  | nil =>
    rw [List.mapM_nil]
    exact .pure _ _
  | cons x xs ih =>
    rw [List.mapM_cons]
    refine (hf x List.mem_cons_self).bind fun _ ↦ ?_
    exact (ih fun y hy ↦ hf y (List.mem_cons_of_mem x hy)).bind fun _ ↦ .pure _ _

end LeavesAlone

/-- Whatever the state, the answer satisfies `P`. -/
def Answers (P : α → Prop) (x : StateM σ α) : Prop :=
  ∀ s, P (x.run s).1

namespace Answers

variable {P : α → Prop} {Q : β → Prop} {x : StateM σ α} {a : α}

protected theorem pure (h : P a) : Answers P (pure a : StateM σ α) :=
  fun _ ↦ h

protected theorem bind {f : α → StateM σ β} (hx : Answers P x)
    (hf : ∀ a, P a → Answers Q (f a)) : Answers Q (x >>= f) := by
  intro s
  rw [StateT.run_bind]
  exact hf _ (hx s) _

end Answers

end MappingGraph
