import MappingGraph.Proofs.Json.Pointer

/-!
# The positions in a value

`Json.positions` lists all values inside a value, each with the keys and numbers that lead to it from
the outside.  There are as many as `size` says (`Json.length_positions`), and whatever a pointer
reaches is among them (`Json.exists_position_of_follow?`).
-/

set_option autoImplicit false

namespace MappingGraph.Json

/-- Every value inside a value, with the steps that lead to it. -/
def positions : Json → List (List String × Json)
  | array xs => ([], array xs) :: ofItems 0 xs
  | object ms => ([], object ms) :: ofMembers ms
  | v => [([], v)]
where
  ofItems : Nat → List Json → List (List String × Json)
    | _, [] => []
    | i, x :: xs =>
      x.positions.map (fun p ↦ (Text.natText i :: p.1, p.2)) ++ ofItems (i + 1) xs
  ofMembers : List (String × Json) → List (List String × Json)
    | [] => []
    | (k, x) :: ms => x.positions.map (fun p ↦ (k :: p.1, p.2)) ++ ofMembers ms

variable {v u x : Json} {xs : List Json} {ms : Members} {ts : List String} {t k : String}

/-- Induction over a value, with the hypothesis for every item and every member. -/
@[elab_as_elim]
theorem ind {P : Json → Prop} (null : P .null) (bool : ∀ b, P (.bool b))
    (number : ∀ n, P (.number n)) (string : ∀ s, P (.string s))
    (array : ∀ xs, (∀ x ∈ xs, P x) → P (.array xs))
    (object : ∀ ms : Members, (∀ m ∈ ms, P m.2) → P (.object ms)) (v : Json) : P v :=
  @Json.rec P (fun xs ↦ ∀ x ∈ xs, P x) (fun ms ↦ ∀ m ∈ ms, P m.2) (fun m ↦ P m.2)
    null bool number string array object
    (fun _ h ↦ absurd h List.not_mem_nil)
    (fun _ _ hx hxs y hy ↦ (List.mem_cons.mp hy).elim (fun h ↦ h ▸ hx) (hxs y))
    (fun _ h ↦ absurd h List.not_mem_nil)
    (fun _ _ hm hms n hn ↦ (List.mem_cons.mp hn).elim (fun h ↦ h ▸ hm) (hms n))
    (fun _ _ hx ↦ hx) v

/-! ## How many -/

theorem length_ofItems (h : ∀ x ∈ xs, x.positions.length = x.size) (i : Nat) :
    (positions.ofItems i xs).length = size.sizeOfItems xs := by
  induction xs generalizing i with
  | nil => rfl
  | cons x xs ih =>
    rw [positions.ofItems, size.sizeOfItems, List.length_append, List.length_map,
      h x List.mem_cons_self, ih fun y hy ↦ h y (List.mem_cons_of_mem x hy)]

theorem length_ofMembers (h : ∀ m ∈ ms, m.2.positions.length = m.2.size) :
    (positions.ofMembers ms).length = size.sizeOfMembers ms := by
  induction ms with
  | nil => rfl
  | cons m ms ih =>
    rw [positions.ofMembers, size.sizeOfMembers, List.length_append, List.length_map,
      h m List.mem_cons_self, ih fun y hy ↦ h y (List.mem_cons_of_mem m hy)]

/-- **There are as many positions as the size says.** -/
theorem length_positions (v : Json) : v.positions.length = v.size := by
  induction v using ind with
  | null | bool | number | string => rfl
  | array xs ih => rw [positions, List.length_cons, length_ofItems ih, size]
  | object ms ih => rw [positions, List.length_cons, length_ofMembers ih, size]

theorem size_le_sizeOfItems (h : x ∈ xs) : x.size ≤ size.sizeOfItems xs := by
  induction xs with
  | nil => exact absurd h List.not_mem_nil
  | cons y xs ih =>
    rw [size.sizeOfItems]
    rcases List.mem_cons.mp h with rfl | h
    · exact Nat.le_add_right _ _
    · exact Nat.le_add_left_of_le (ih h)

theorem size_le_sizeOfMembers (h : (k, x) ∈ ms) : x.size ≤ size.sizeOfMembers ms := by
  induction ms with
  | nil => exact absurd h List.not_mem_nil
  | cons m ms ih =>
    rw [size.sizeOfMembers]
    rcases List.mem_cons.mp h with rfl | h
    · exact Nat.le_add_right _ _
    · exact Nat.le_add_left_of_le (ih h)

/-! ## Which -/

theorem nil_mem_positions (v : Json) : ([], v) ∈ v.positions := by
  cases v <;> exact List.mem_cons_self

theorem mem_ofItems {i j : Nat} (hx : xs[j]? = some x) (h : (ts, u) ∈ x.positions) :
    (Text.natText (i + j) :: ts, u) ∈ positions.ofItems i xs := by
  induction xs generalizing i j with
  | nil => cases hx
  | cons y xs ih =>
    rw [positions.ofItems, List.mem_append]
    cases j with
    | zero =>
      rw [List.getElem?_cons_zero] at hx
      exact .inl (List.mem_map.mpr ⟨(ts, u), Option.some.inj hx ▸ h, rfl⟩)
    | succ j =>
      rw [← Nat.succ_add_eq_add_succ]
      exact .inr (ih hx)

theorem mem_ofMembers (hm : (k, x) ∈ ms) (h : (ts, u) ∈ x.positions) :
    (k :: ts, u) ∈ positions.ofMembers ms := by
  induction ms with
  | nil => exact absurd hm List.not_mem_nil
  | cons m ms ih =>
    rw [positions.ofMembers, List.mem_append]
    rcases List.mem_cons.mp hm with rfl | hm
    · exact .inl (List.mem_map.mpr ⟨(ts, u), h, rfl⟩)
    · exact .inr (ih hm)

/-- A position in an item is one in the array. -/
theorem mem_positions_array {j : Nat} (hx : xs[j]? = some x) (h : (ts, u) ∈ x.positions) :
    (Text.natText j :: ts, u) ∈ (array xs).positions := by
  rw [positions, ← Nat.zero_add j]
  exact List.mem_cons_of_mem _ (mem_ofItems hx h)

/-- A position in a member is one in the object. -/
theorem mem_positions_object (hm : (k, x) ∈ ms) (h : (ts, u) ∈ x.positions) :
    (k :: ts, u) ∈ (object ms).positions := by
  rw [positions]
  exact List.mem_cons_of_mem _ (mem_ofMembers hm h)

theorem exists_of_mem_ofItems {i : Nat} (h : (ts, u) ∈ positions.ofItems i xs) :
    ∃ (j : Nat) (x : Json) (us : List String), xs[j]? = some x ∧
      ts = Text.natText (i + j) :: us ∧ (us, u) ∈ x.positions := by
  induction xs generalizing i with
  | nil => exact absurd h List.not_mem_nil
  | cons y xs ih =>
    rw [positions.ofItems, List.mem_append] at h
    rcases h with h | h
    · obtain ⟨⟨us, w⟩, hp, heq⟩ := List.mem_map.mp h
      obtain ⟨rfl, rfl⟩ := Prod.mk.inj heq
      exact ⟨0, y, us, rfl, rfl, hp⟩
    · obtain ⟨j, x, us, hx, rfl, hp⟩ := ih h
      exact ⟨j + 1, x, us, hx, by rw [Nat.succ_add_eq_add_succ], hp⟩

theorem exists_of_mem_ofMembers (h : (ts, u) ∈ positions.ofMembers ms) :
    ∃ k x us, (k, x) ∈ ms ∧ ts = k :: us ∧ (us, u) ∈ x.positions := by
  induction ms with
  | nil => exact absurd h List.not_mem_nil
  | cons m ms ih =>
    rw [positions.ofMembers, List.mem_append] at h
    rcases h with h | h
    · obtain ⟨⟨us, w⟩, hp, heq⟩ := List.mem_map.mp h
      obtain ⟨rfl, rfl⟩ := Prod.mk.inj heq
      exact ⟨m.1, m.2, us, List.mem_cons_self, rfl, hp⟩
    · obtain ⟨k, x, us, hm, rfl, hp⟩ := ih h
      exact ⟨k, x, us, List.mem_cons_of_mem m hm, rfl, hp⟩

/-- **A position is that of the value itself, or one inside of a part**, and all positions in that
part are positions in the value. -/
theorem exists_part_of_mem_positions (h : (ts, u) ∈ v.positions) :
    ts = [] ∧ u = v ∨ ∃ (t : String) (us : List String) (x : Json), ts = t :: us ∧
      (us, u) ∈ x.positions ∧ x.size ≤ v.size ∧ ∀ ws w,
        (ws, w) ∈ x.positions → (t :: ws, w) ∈ v.positions := by
  cases v with
  | null | bool | number | string =>
    obtain ⟨rfl, rfl⟩ := Prod.mk.inj (List.mem_singleton.mp h)
    exact .inl ⟨rfl, rfl⟩
  | array xs =>
    rw [positions] at h
    rcases List.mem_cons.mp h with h | h
    · exact .inl (Prod.mk.inj h)
    · obtain ⟨j, x, us, hx, rfl, hp⟩ := exists_of_mem_ofItems h
      rw [Nat.zero_add]
      exact .inr ⟨_, us, x, rfl, hp, Nat.le_succ_of_le (size_le_sizeOfItems (List.mem_of_getElem? hx)),
        fun _ _ ↦ mem_positions_array hx⟩
  | object ms =>
    rw [positions] at h
    rcases List.mem_cons.mp h with h | h
    · exact .inl (Prod.mk.inj h)
    · obtain ⟨k, x, us, hm, rfl, hp⟩ := exists_of_mem_ofMembers h
      exact .inr ⟨k, us, x, rfl, hp, Nat.le_succ_of_le (size_le_sizeOfMembers hm),
        fun _ _ ↦ mem_positions_object hm⟩

/-- **A position can be extended by one step.** -/
theorem mem_positions_append (h : (ts, u) ∈ v.positions) (hx : ([t], x) ∈ u.positions) :
    (ts ++ [t], x) ∈ v.positions := by
  induction ts generalizing v with
  | nil =>
    rcases exists_part_of_mem_positions h with ⟨-, rfl⟩ | ⟨_, _, _, heq, _⟩
    · exact hx
    · cases heq
  | cons s ts ih =>
    rcases exists_part_of_mem_positions h with ⟨heq, _⟩ | ⟨_, _, y, heq, hp, -, hall⟩
    · cases heq
    · obtain ⟨rfl, rfl⟩ := List.cons.inj heq
      exact hall _ _ (ih hp)

/-- What has a position is not larger than the whole. -/
theorem size_le_of_mem_positions (h : (ts, u) ∈ v.positions) : u.size ≤ v.size := by
  induction ts generalizing v with
  | nil =>
    rcases exists_part_of_mem_positions h with ⟨-, rfl⟩ | ⟨_, _, _, heq, _⟩
    · exact Nat.le_refl _
    · cases heq
  | cons s ts ih =>
    rcases exists_part_of_mem_positions h with ⟨heq, _⟩ | ⟨_, _, y, heq, hp, hle, -⟩
    · cases heq
    · obtain ⟨rfl, rfl⟩ := List.cons.inj heq
      exact Nat.le_trans (ih hp) hle

/-! ## What a pointer reaches -/

theorem mem_positions_of_get? (h : v.get? k = some x) : ([k], x) ∈ v.positions := by
  cases v with
  | object ms => exact mem_positions_object (Members.mem_of_find? h) (nil_mem_positions x)
  | _ => cases h

/-- A step leads to a position. -/
theorem exists_position_of_step? (h : v.step? t = some x) : ∃ s, ([s], x) ∈ v.positions := by
  rw [step?.eq_def] at h
  split at h
  · exact ⟨t, mem_positions_object (Members.mem_of_find? h) (nil_mem_positions x)⟩
  · obtain ⟨i, _, hi⟩ := Option.bind_eq_some_iff.mp h
    exact ⟨Text.natText i, mem_positions_array hi (nil_mem_positions x)⟩
  · cases h

/-- **What steps lead to has a position.** -/
theorem exists_position_of_follow? (h : v.follow? ts = some u) :
    ∃ us, (us, u) ∈ v.positions := by
  suffices ∀ w us, (us, w) ∈ v.positions → w.follow? ts = some u → ∃ us, (us, u) ∈ v.positions from
    this v [] (nil_mem_positions v) h
  clear h
  induction ts with
  | nil =>
    intro w us hw h
    exact ⟨us, Option.some.inj h ▸ hw⟩
  | cons t ts ih =>
    intro w us hw h
    obtain ⟨x, hx, h⟩ := Option.bind_eq_some_iff.mp h
    obtain ⟨s, hs⟩ := exists_position_of_step? hx
    exact ih x (us ++ [s]) (mem_positions_append hw hs) h

end MappingGraph.Json
