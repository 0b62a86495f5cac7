import Mathlib.Data.List.Infix
import MappingGraph.Proofs.Json.Order

/-!
# Changing a part of a value

`Json.modifySteps?` changes what some steps lead to.  This works whenever something is there
(`Json.exists_modifySteps?`), it does there what it should (`Json.follow?_modifySteps?`), and what
other steps lead to stays as it is (`Json.follow?_modifySteps?_of_apart`), provided that neither
row of steps is the beginning of the other: a change of a part is also a change of all that it is
part of, and it may change everything inside.

Steps are compared as tokens.  This needs no care about arrays, since a position has only one token
(`Pointer.natText_of_index?`).
-/

set_option autoImplicit false

namespace MappingGraph.Json

variable {v w x y : Json} {xs : List Json} {t u key : String} {ts us : List String}
  {change : Json → Json}

/-! ## One step -/

theorem step?_replaceStep_self (h : v.step? t = some x) (y : Json) :
    (replaceStep t y v).step? t = some y := by
  rw [step?.eq_def] at h
  split at h
  · exact Members.find?_set_self t y _
  · obtain ⟨i, hi, hx⟩ := Option.bind_eq_some_iff.mp h
    obtain ⟨hlt, _⟩ := List.getElem?_eq_some_iff.mp hx
    rw [replaceStep, hi, step?, hi, Option.bind_some, List.getElem?_set_self hlt]
  · cases h

theorem step?_replaceStep_of_ne (h : u ≠ t) (y v : Json) :
    (replaceStep t y v).step? u = v.step? u := by
  cases v with
  | object ms => exact Members.find?_set_of_ne h y ms
  | array xs =>
    rw [replaceStep]
    cases ht : Pointer.index? t with
    | none => rfl
    | some i =>
      rw [step?, step?]
      refine Option.bind_congr fun j hj ↦ List.getElem?_set_ne ?_
      rintro rfl
      exact h ((Pointer.natText_of_index? hj).symm.trans (Pointer.natText_of_index? ht))
  | _ => rfl

theorem get?_replaceStep_self (h : v.get? t = some x) (y : Json) :
    (replaceStep t y v).get? t = some y := by
  cases v with
  | object ms => exact Members.find?_set_self t y ms
  | _ => cases h

theorem get?_replaceStep_of_ne (h : key ≠ t) (y v : Json) :
    (replaceStep t y v).get? key = v.get? key := by
  cases v with
  | object ms => exact Members.find?_set_of_ne h y ms
  | array xs =>
    rw [replaceStep]
    split <;> rfl
  | _ => rfl

/-! ## Many steps -/

theorem modifySteps?_cons_eq_some_iff : v.modifySteps? change (t :: ts) = some w ↔
    ∃ x y, v.step? t = some x ∧ x.modifySteps? change ts = some y ∧ w = replaceStep t y v := by
  rw [modifySteps?]
  constructor
  · intro h
    obtain ⟨x, hx, h⟩ := Option.bind_eq_some_iff.mp h
    obtain ⟨y, hy, h⟩ := Option.bind_eq_some_iff.mp h
    exact ⟨x, y, hx, hy, (Option.some.inj h).symm⟩
  · rintro ⟨x, y, hx, hy, rfl⟩
    rw [hx, Option.bind_eq_bind, Option.bind_some, hy]
    rfl

/-- **What is there can be changed.** -/
theorem exists_modifySteps? (h : v.follow? ts = some x) (change : Json → Json) :
    ∃ w, v.modifySteps? change ts = some w := by
  induction ts generalizing v with
  | nil => exact ⟨change v, rfl⟩
  | cons t ts ih =>
    obtain ⟨y, hy, h⟩ := Option.bind_eq_some_iff.mp h
    obtain ⟨z, hz⟩ := ih h
    exact ⟨_, modifySteps?_cons_eq_some_iff.mpr ⟨y, z, hy, hz, rfl⟩⟩

/-- **A change further down** is a change to the part on the way there. -/
theorem exists_of_modifySteps?_append (h : v.modifySteps? change (us ++ ts) = some w) :
    ∃ x y, v.follow? us = some x ∧ x.modifySteps? change ts = some y ∧ w.follow? us = some y := by
  induction us generalizing v w with
  | nil => exact ⟨v, w, rfl, h, rfl⟩
  | cons u us ih =>
    obtain ⟨x, y, hx, hy, rfl⟩ := modifySteps?_cons_eq_some_iff.mp h
    obtain ⟨x', y', hx', hy', hfollow⟩ := ih hy
    refine ⟨x', y', ?_, hy', ?_⟩
    · rw [follow?, hx, Option.bind_some, hx']
    · rw [follow?, step?_replaceStep_self hx, Option.bind_some, hfollow]

theorem follow?_modifySteps? (hw : v.modifySteps? change ts = some w)
    (h : v.follow? ts = some x) : w.follow? ts = some (change x) := by
  rw [← List.append_nil ts] at hw
  obtain ⟨x', y, hx', hy, hfollow⟩ := exists_of_modifySteps?_append hw
  obtain rfl : x = x' := Option.some.inj (h.symm.trans hx')
  rw [hfollow, ← hy, modifySteps?]

/-- **Nothing else changes**, neither of the two being inside of the other. -/
theorem follow?_modifySteps?_of_apart (hw : v.modifySteps? change ts = some w)
    (hts : ¬ ts <+: us) (hus : ¬ us <+: ts) : w.follow? us = v.follow? us := by
  induction ts generalizing v w us with
  | nil => exact absurd List.nil_prefix hts
  | cons t ts ih =>
    cases us with
    | nil => exact absurd List.nil_prefix hus
    | cons u us =>
      obtain ⟨x, y, hx, hy, rfl⟩ := modifySteps?_cons_eq_some_iff.mp hw
      rw [follow?, follow?]
      by_cases hut : u = t
      · subst hut
        rw [step?_replaceStep_self hx, hx, Option.bind_some, Option.bind_some]
        refine ih hy (fun h ↦ hts ?_) fun h ↦ hus ?_
        · exact List.cons_prefix_cons.mpr ⟨rfl, h⟩
        · exact List.cons_prefix_cons.mpr ⟨rfl, h⟩
      · rw [step?_replaceStep_of_ne hut]

/-! ## Members -/

theorem get?_of_modifySteps?_self (hw : v.modifySteps? change (t :: ts) = some w)
    (h : v.get? t = some x) : ∃ y, x.modifySteps? change ts = some y ∧ w.get? t = some y := by
  obtain ⟨x', y, hx, hy, rfl⟩ := modifySteps?_cons_eq_some_iff.mp hw
  obtain rfl : x = x' := Option.some.inj ((step?_of_get? h).symm.trans hx)
  exact ⟨y, hy, get?_replaceStep_self h y⟩

theorem get?_of_modifySteps?_of_ne (hw : v.modifySteps? change (t :: ts) = some w)
    (h : key ≠ t) : w.get? key = v.get? key := by
  obtain ⟨_, _, _, _, rfl⟩ := modifySteps?_cons_eq_some_iff.mp hw
  exact get?_replaceStep_of_ne h _ v

/-- There is no new member, unless it is the change itself that makes one. -/
theorem get?_eq_none_of_modifySteps? (hw : v.modifySteps? change ts = some w)
    (hchange : ∀ x : Json, x.get? key = none → (change x).get? key = none)
    (hv : v.get? key = none) : w.get? key = none := by
  cases ts with
  | nil => exact Option.some.inj hw ▸ hchange v hv
  | cons t ts =>
    obtain ⟨x, y, hx, -, rfl⟩ := modifySteps?_cons_eq_some_iff.mp hw
    by_cases hne : key = t
    · subst hne
      cases v with
      | object ms => cases hx.symm.trans hv
      | array xs =>
        rw [replaceStep]
        split <;> rfl
      | _ => rfl
    · rw [get?_replaceStep_of_ne hne, hv]

/-- A change inside of an array leaves an array, as long as before. -/
theorem exists_array_of_modifySteps? (hw : (array xs).modifySteps? change (t :: ts) = some w) :
    ∃ ys, w = array ys ∧ ys.length = xs.length := by
  obtain ⟨_, y, _, _, rfl⟩ := modifySteps?_cons_eq_some_iff.mp hw
  rw [replaceStep]
  split
  · exact ⟨_, rfl, List.length_set⟩
  · exact ⟨xs, rfl, rfl⟩

end MappingGraph.Json
