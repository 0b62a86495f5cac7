import Mathlib.Data.List.Basic
import MappingGraph.Operation.Registry

/-!
# What a registry knows

Adding a kind replaces what was known about it and nothing else (`Registry.find?_insert`), and
taking it out touches nothing else either (`Registry.find?_erase`).  The standard registry knows all
kinds but the unnamed ones, each as it is by default (`Registry.find?_standard`).
-/

set_option autoImplicit false

namespace MappingGraph

theorem Kind.mem_all {k : Kind} (h : k.isUnknown = false) : k ∈ Kind.all := by
  cases k with
  | unknown name => cases h
  | _ => decide

namespace Registry

variable {r : Registry} {kind k : Kind} {info : OperationInfo}

theorem find?_erase (r : Registry) (kind k : Kind) :
    (r.erase kind).find? k = if kind = k then none else r.find? k := by
  rw [find?, erase, List.find?_filter]
  split_ifs with h
  · subst h
    rw [List.find?_eq_none.mpr fun p _ ↦ by simp, Option.map_none]
  · have hfind : ∀ p : Kind × OperationInfo,
        decide (p.1 ≠ kind ∧ p.1 = k) = decide (p.1 = k) := fun p ↦
      decide_eq_decide.mpr (and_iff_right_of_imp fun hp heq ↦ h (heq.symm.trans hp))
    simp only [find?, decide_eq_true_eq, hfind]

theorem find?_insert (r : Registry) (kind k : Kind) (info : OperationInfo) :
    (r.insert kind info).find? k = if kind = k then some info else r.find? k := by
  rw [find?, insert, List.find?_cons]
  split_ifs with h
  · rw [decide_eq_true h]
    rfl
  · rw [decide_eq_false h]
    exact (find?_erase r kind k).trans (if_neg h)

theorem find?_foldl_insert (ks : List Kind) (infoOf : Kind → OperationInfo) (r : Registry)
    (k : Kind) : (ks.foldl (fun r k ↦ r.insert k (infoOf k)) r).find? k =
      if k ∈ ks then some (infoOf k) else r.find? k := by
  induction ks generalizing r with
  | nil => rfl
  | cons k' ks ih =>
    rw [List.foldl_cons, ih, find?_insert]
    by_cases hmem : k ∈ ks
    · rw [if_pos hmem, if_pos (List.mem_cons_of_mem k' hmem)]
    · rw [if_neg hmem]
      by_cases heq : k' = k
      · rw [if_pos heq, if_pos (heq ▸ List.mem_cons_self), heq]
      · rw [if_neg heq, if_neg]
        rw [List.mem_cons, not_or]
        exact ⟨Ne.symm heq, hmem⟩

/-- **The standard registry knows every named kind**, as it is by default. -/
theorem find?_standard (h : k.isUnknown = false) :
    standard.find? k = some ⟨k.isPureByDefault, displayNameOf k.name⟩ := by
  rw [standard, find?_foldl_insert Kind.all (fun k ↦ ⟨k.isPureByDefault, displayNameOf k.name⟩),
    if_pos (Kind.mem_all h)]

theorem isPure_iff :
    r.isPure kind = true ↔ ∃ info, r.find? kind = some info ∧ info.isPure = true := by
  rw [isPure]
  cases r.find? kind <;> simp

end Registry

end MappingGraph
