import Mathlib.Data.List.Induction
import Mathlib.Data.List.Nodup

/-!
# Lists without repetitions

Of a list in which names repeat, `List.eraseDups` keeps each where it appears first.  `ListsFirst`
says so without the list being gone through: the names are those of the list, and of two names the
one that appears earlier comes earlier.  There is only one such list.

A name of such a list stands at one position.  An index from names to positions `Points` into the
list if it leads to these positions, and it still does when a new name is put at the end of both.
-/

set_option autoImplicit false

namespace MappingGraph

variable {l firsts : List String}

/-- A new member is kept at the end. -/
theorem eraseDups_concat (l : List String) (a : String) :
    (l ++ [a]).eraseDups = if a ∈ l then l.eraseDups else l.eraseDups ++ [a] := by
  rw [List.eraseDups_append, List.removeAll]
  split
  · next h => rw [List.filter_cons_of_neg (by simpa using h)]; exact List.append_nil _
  · next h => rw [List.filter_cons_of_pos (by simpa using h)]; rfl

/-- The second list has the members of the first in the order in which they appear there first. -/
structure ListsFirst (l firsts : List String) : Prop where
  mem : ∀ a, a ∈ firsts ↔ a ∈ l
  order : firsts.Pairwise fun a b ↦ l.idxOf a < l.idxOf b

theorem ListsFirst.nodup (h : ListsFirst l firsts) : firsts.Nodup :=
  h.order.imp fun hlt heq ↦ Nat.ne_of_lt hlt (congrArg l.idxOf heq)

/-- The induction is from the end of the list, where a member is new or was kept before. -/
theorem listsFirst_eraseDups (l : List String) : ListsFirst l l.eraseDups where
  mem _ := List.mem_eraseDups
  order := by
    induction l using List.reverseRecOn with
    | nil => exact List.Pairwise.nil
    | append_singleton l a ih =>
      have hfront : l.eraseDups.Pairwise fun b c ↦ (l ++ [a]).idxOf b < (l ++ [a]).idxOf c :=
        ih.imp_of_mem fun hb hc hlt ↦ by
          rwa [List.idxOf_append_of_mem (List.mem_eraseDups.mp hb),
            List.idxOf_append_of_mem (List.mem_eraseDups.mp hc)]
      rw [eraseDups_concat]
      split
      · exact hfront
      · next ha =>
        refine List.pairwise_append.mpr ⟨hfront, List.pairwise_singleton _ _, fun b hb c hc ↦ ?_⟩
        have hb' := List.mem_eraseDups.mp hb
        rw [List.mem_singleton.mp hc, List.idxOf_append_of_mem hb', List.idxOf_append_of_notMem ha]
        exact Nat.lt_of_lt_of_le (List.idxOf_lt_length_of_mem hb') (Nat.le_add_right _ _)

theorem nodup_eraseDups (l : List String) : l.eraseDups.Nodup := (listsFirst_eraseDups l).nodup

/-! ## Positions -/

theorem getElem?_concat_eq_some_iff {α : Type} {l : List α} {a b : α} {k : Nat} :
    (l ++ [a])[k]? = some b ↔ l[k]? = some b ∨ k = l.length ∧ a = b := by
  rcases Nat.lt_trichotomy k l.length with hk | rfl | hk
  · rw [List.getElem?_append_left hk]
    simp [Nat.ne_of_lt hk]
  · simp
  · have hnone : ∀ l' : List α, l'.length ≤ k → l'[k]? ≠ some b := fun l' hle h ↦ by
      simp [List.getElem?_eq_none hle] at h
    have hlong : (l ++ [a]).length ≤ k := by
      rw [List.length_append, List.length_singleton]
      exact hk
    simp [hnone _ hlong, hnone l (Nat.le_of_lt hk), Nat.ne_of_gt hk]

/-- The index leads to a position exactly if the name stands there. -/
def Points (index : String → Option Nat) (l : List String) : Prop :=
  ∀ a k, index a = some k ↔ l[k]? = some a

namespace Points

variable {index : String → Option Nat} {a b : String} {k : Nat}

theorem isSome_iff (h : Points index l) : (index a).isSome = true ↔ a ∈ l := by
  rw [Option.isSome_iff_exists, List.mem_iff_getElem?]
  exact exists_congr fun k ↦ h a k

theorem eq_of_eq_some (h : Points index l) (ha : index a = some k) (hb : index b = some k) :
    a = b :=
  Option.some.inj (((h a k).mp ha).symm.trans ((h b k).mp hb))

/-- A new name is put at the end. -/
theorem concat (h : Points index l) (hnew : a ∉ l) :
    Points (fun b ↦ if b = a then some l.length else index b) (l ++ [a]) := by
  intro b k
  rw [getElem?_concat_eq_some_iff]
  by_cases hb : b = a
  · subst hb
    have hout : l[k]? ≠ some b := fun hk ↦ hnew (List.mem_of_getElem? hk)
    rw [or_iff_right hout, and_iff_left rfl]
    simp only [↓reduceIte, Option.some.injEq]
    exact eq_comm
  · simp only [hb, ↓reduceIte, h b k, Ne.symm hb, and_false, or_false]

/-- Searching for a name from the front points to where it stands, if there is one such place. -/
theorem findIdx? (hn : l.Nodup) : Points (fun a ↦ l.findIdx? (· = a)) l := by
  intro a k
  rw [List.findIdx?_eq_some_iff_getElem, List.getElem?_eq_some_iff]
  refine exists_congr fun hk ↦ ?_
  rw [decide_eq_true_iff, and_iff_left_of_imp]
  rintro rfl j hj heq
  exact Nat.ne_of_lt hj (hn.getElem_inj_iff.mp (of_decide_eq_true heq))

end Points

end MappingGraph
