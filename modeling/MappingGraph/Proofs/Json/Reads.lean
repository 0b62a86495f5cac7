import MappingGraph.Json.Record
import MappingGraph.Proofs.Json.Canonical

/-!
# What decoders read

`Decoder.Reads decode v a` says that the decoder reads the value `a` from the JSON value `v`: wherever
`v` stands, and in whatever order the members of its objects are, unless a text has no room left for
its depth.  There is one lemma for each way of making a decoder out of others; for structures it is
`Fields.Gives.reads`, for objects that name their kind `Decoder.reads_tagged`.
-/

set_option autoImplicit false

namespace MappingGraph

/-! ## Depth -/

namespace Json

variable {v w : Json} {xs : List Json} {ms : Members} {n : Nat}

theorem depthOfItems_le_iff : depth.depthOfItems xs ≤ n ↔ ∀ x ∈ xs, x.depth ≤ n := by
  induction xs with
  | nil => simp [depth.depthOfItems]
  | cons x xs ih => rw [depth.depthOfItems, Nat.max_le, ih, List.forall_mem_cons]

theorem depthOfMembers_le_iff : depth.depthOfMembers ms ≤ n ↔ ∀ m ∈ ms, m.2.depth ≤ n := by
  induction ms with
  | nil => simp [depth.depthOfMembers]
  | cons m ms ih => rw [depth.depthOfMembers, Nat.max_le, ih, List.forall_mem_cons]

theorem depth_lt_depth_array {x : Json} (h : x ∈ xs) : x.depth < (array xs).depth :=
  Nat.lt_succ_of_le (depthOfItems_le_iff.mp (Nat.le_refl _) x h)

theorem depth_lt_depth_object {m : String × Json} (h : m ∈ ms) : m.2.depth < (object ms).depth :=
  Nat.lt_succ_of_le (depthOfMembers_le_iff.mp (Nat.le_refl _) m h)

theorem depth_array_le_iff : (array xs).depth ≤ n + 1 ↔ ∀ x ∈ xs, x.depth ≤ n :=
  Nat.succ_le_succ_iff.trans depthOfItems_le_iff

theorem depth_object_le_iff : (object ms).depth ≤ n + 1 ↔ ∀ m ∈ ms, m.2.depth ≤ n :=
  Nat.succ_le_succ_iff.trans depthOfMembers_le_iff

/-- Sorting keeps the depth. -/
theorem depth_sorted (h : v.Distinct) : v.sorted.depth = v.depth := by
  induction v using ind with
  | null | bool | number | string => rfl
  | array xs ih =>
    rw [sorted_array, depth, depth, Nat.add_right_cancel_iff]
    refine eq_of_forall_ge_iff fun n ↦ ?_
    rw [depthOfItems_le_iff, depthOfItems_le_iff, List.forall_mem_map]
    exact forall₂_congr fun x hx ↦ by rw [ih x hx (h.of_mem_items hx)]
  | object ms ih =>
    rw [sorted_object, depth, depth, Nat.add_right_cancel_iff]
    refine eq_of_forall_ge_iff fun n ↦ ?_
    have hperm := Members.perm_ordered ((keys_map_sortedMember ms).symm ▸ h.self)
    simp only [depthOfMembers_le_iff, hperm.mem_iff, List.forall_mem_map]
    exact forall₂_congr fun m hm ↦ by rw [sortedMember, ih m hm (h.of_mem_members hm)]

theorem Rearranges.depth_eq (h : w.Rearranges v) : w.depth = v.depth := by
  rw [← depth_sorted h.distinct_left, h.sorted_eq, depth_sorted h.distinct_right]

end Json

/-! ## Room -/

namespace Standing

variable {α β : Type} {a : α} {b : β} {m n : Nat}

/-- The value, if something of the depth may stand there. -/
def permit (standing : Standing) (depth : Nat) (a : α) : Except SyntaxFault α :=
  match standing with
  | text room => if depth ≤ room then .ok a else .error .tooDeep
  | value | gathered => .ok a

variable (s : Standing)

theorem permit_zero : s.permit 0 a = .ok a := by
  cases s <;> rfl

theorem permit_eq_ok_or (n : Nat) : (∀ {α : Type} (a : α), s.permit n a = .ok a) ∨
    ∀ {α : Type} (a : α), s.permit n a = .error .tooDeep := by
  cases s with
  | text room =>
    by_cases h : n ≤ room
    · exact .inl fun _ ↦ if_pos h
    · exact .inr fun _ ↦ if_neg h
  | value | gathered => exact .inl fun _ ↦ rfl

theorem permit_bind_ok {f : α → Except SyntaxFault β} (h : f a = .ok b) :
    s.permit n a >>= f = s.permit n b := by
  cases s with
  | text room =>
    rw [permit, permit]
    split
    · exact h
    · rfl
  | value | gathered => exact h

/-- Two parts may stand there if the deeper one may. -/
theorem permit_bind {f : α → Except SyntaxFault β} (h : f a = s.permit n b) :
    s.permit m a >>= f = s.permit (max m n) b := by
  cases s with
  | text room =>
    simp only [permit, Nat.max_le] at h ⊢
    by_cases hm : m ≤ room
    · simp only [hm, true_and, if_true]
      exact h
    · simp only [hm, false_and, if_false]
      rfl
  | value | gathered => exact h

theorem enter_bind {f : Standing → Except SyntaxFault α}
    (h : ∀ inside, f inside = inside.permit n a) :
    s.enter >>= f = s.permit (n + 1) a := by
  cases s with
  | text room =>
    cases room with
    | zero => rfl
    | succ room =>
      refine (h _).trans ?_
      simp only [permit, Nat.succ_le_succ_iff]
  | value | gathered => exact h _

/-- Inside of an array or object of a text there is less room. -/
theorem exists_of_enter_text {room : Nat} {inside : Standing}
    (h : (text room).enter = .ok inside) : ∃ left, room = left + 1 ∧ inside = text left := by
  cases room with
  | zero => cases h
  | succ left => exact ⟨left, rfl, (Except.ok.inj h).symm⟩

end Standing

/-! ## Any value -/

namespace Draft

theorem depth_ofJson (v : Json) : (ofJson v).depth = v.depth := by
  induction v using Json.ind with
  | null | bool | number | string => rfl
  | array xs ih =>
    rw [ofJson, depth, Json.depth, Nat.add_right_cancel_iff]
    induction xs with
    | nil => rfl
    | cons x xs ihs =>
      rw [ofJson.ofItems, depth.depthOfItems, Json.depth.depthOfItems, ih x List.mem_cons_self,
        ihs fun y hy ↦ ih y (List.mem_cons_of_mem x hy)]
  | object ms ih =>
    rw [ofJson, depth, Json.depth, Nat.add_right_cancel_iff]
    induction ms with
    | nil => rfl
    | cons m ms ihs =>
      rw [ofJson.ofMembers, depth.depthOfMembers, Json.depth.depthOfMembers,
        ih m List.mem_cons_self, ihs fun n hn ↦ ih n (List.mem_cons_of_mem m hn)]

theorem items?_ofItems {standing : Standing} {xs : List Json}
    (h : ∀ x ∈ xs, (ofJson x).value? standing = standing.permit x.depth x.sorted) :
    value?.items? standing (ofJson.ofItems xs) =
      standing.permit (Json.depth.depthOfItems xs) (xs.map Json.sorted) := by
  induction xs with
  | nil => exact (Standing.permit_zero standing).symm
  | cons x xs ih =>
    rw [ofJson.ofItems, value?.items?, h x List.mem_cons_self,
      ih fun y hy ↦ h y (List.mem_cons_of_mem x hy), Json.depth.depthOfItems, List.map_cons]
    exact standing.permit_bind (standing.permit_bind_ok rfl)

theorem members?_ofMembers {standing : Standing} {ms : Members}
    (h : ∀ m ∈ ms, (ofJson m.2).value? standing = standing.permit m.2.depth m.2.sorted) :
    value?.members? standing (ofJson.ofMembers ms) =
      standing.permit (Json.depth.depthOfMembers ms) (ms.map Json.sortedMember) := by
  induction ms with
  | nil => exact (Standing.permit_zero standing).symm
  | cons m ms ih =>
    rw [ofJson.ofMembers, value?.members?, DraftKey.text?, h m List.mem_cons_self,
      ih fun n hn ↦ h n (List.mem_cons_of_mem m hn), Json.depth.depthOfMembers, List.map_cons]
    exact standing.permit_bind (standing.permit_bind_ok rfl)

/-- **A value is read back with the members in ascending order.** -/
theorem value?_ofJson (v : Json) (standing : Standing) :
    (ofJson v).value? standing = standing.permit v.depth v.sorted := by
  induction v using Json.ind generalizing standing with
  | null | bool | number | string => exact standing.permit_zero.symm
  | array xs ih =>
    rw [ofJson, value?, Json.sorted_array, Json.depth]
    refine standing.enter_bind fun inside ↦ ?_
    rw [items?_ofItems fun x hx ↦ ih x hx inside]
    exact inside.permit_bind_ok rfl
  | object ms ih =>
    rw [ofJson, value?, Json.sorted_object, Json.depth]
    refine standing.enter_bind fun inside ↦ ?_
    rw [members?_ofMembers fun m hm ↦ ih m hm inside]
    exact inside.permit_bind_ok rfl

end Draft

/-! ## Decoders of values -/

namespace Decoder

variable {α β : Type} {decode : Decoder α} {v w : Json} {a : α}

/-- The decoder reads the value wherever there is room for its depth. -/
def Reads (decode : Decoder α) (v : Json) (a : α) : Prop :=
  ∀ w : Json, w.Rearranges v → ∀ standing : Standing,
    decode standing (Draft.ofJson w) = syntactic (standing.permit w.depth a)

theorem syntactic_bind (x : Except SyntaxFault α) (f : α → Except SyntaxFault β) :
    syntactic (x >>= f) = syntactic x >>= fun a ↦ syntactic (f a) := by
  cases x <;> rfl

theorem enter_bind {s : Standing} {n : Nat} {f : Standing → Except ReadFault α}
    (h : ∀ inside, f inside = syntactic (inside.permit n a)) :
    syntactic s.enter >>= f = syntactic (s.permit (n + 1) a) := by
  rw [funext h, ← syntactic_bind, s.enter_bind fun _ ↦ rfl]

theorem permit_bind_ok {s : Standing} {n : Nat} {f : α → Except ReadFault β} {b : β}
    (h : f a = .ok b) : syntactic (s.permit n a) >>= f = syntactic (s.permit n b) := by
  rcases s.permit_eq_ok_or n with hs | hs
  · rw [hs a, hs b]
    exact h
  · rw [hs a, hs b]
    rfl

theorem permit_bind {s : Standing} {m n : Nat} {f : α → Except ReadFault β} {b : β}
    (h : f a = syntactic (s.permit n b)) :
    syntactic (s.permit m a) >>= f = syntactic (s.permit (max m n) b) := by
  rw [← s.permit_bind (f := fun _ ↦ s.permit n b) (a := a) rfl, syntactic_bind]
  rcases s.permit_eq_ok_or m with hs | hs
  · rw [hs a]
    exact h
  · rw [hs a]
    rfl

theorem permit_map {s : Standing} {n : Nat} {f : α → β} :
    (syntactic (s.permit n a)).map f = syntactic (s.permit n (f a)) := by
  rcases s.permit_eq_ok_or n with hs | hs
  · rw [hs a, hs (f a)]
    rfl
  · rw [hs a, hs (f a)]
    rfl

/-- A value of no depth may stand everywhere. -/
theorem reads_of_depth_eq_zero (hv : v.depth = 0)
    (h : ∀ w : Json, w.Rearranges v → ∀ s, decode s (Draft.ofJson w) = .ok a) :
    Reads decode v a := by
  intro w hw s
  rw [h w hw s, hw.depth_eq, hv, s.permit_zero]
  rfl

/-- **Canonical values are read as they are.** -/
theorem reads_json (h : v.Canonical) : Reads json v v := by
  intro w hw s
  rw [json, Draft.value?_ofJson, hw.sorted_eq, Json.sorted_of_canonical h]

theorem reads_string (s : String) : Reads string (.string s) s :=
  reads_of_depth_eq_zero rfl fun w hw _ ↦ by
    rw [hw.eq_string]
    rfl

theorem reads_natural (n : Nat) : Reads natural (.ofNat n) n :=
  reads_of_depth_eq_zero rfl fun w hw s ↦ by
    rw [hw.eq_number, Draft.ofJson, natural, if_pos (Int.natCast_nonneg n)]
    rfl

theorem Reads.map (h : Reads decode v a) (f : α → β) :
    Reads (fun s d ↦ (decode s d).map f) v (f a) := fun w hw s ↦ by
  change (decode s (Draft.ofJson w)).map f = _
  rw [h w hw s, permit_map]

theorem reads_choice {choices : List (String × α)} {name : String}
    (h : named choices name = .ok a) : Reads (choice choices) (.string name) a :=
  reads_of_depth_eq_zero rfl fun w hw s ↦ by
    rw [hw.eq_string]
    exact h

theorem reads_optional_null : Reads (optional decode) .null none :=
  reads_of_depth_eq_zero rfl fun w hw _ ↦ by
    rw [hw.eq_null]
    rfl

/-- What is not null is read as a value. -/
theorem Reads.optional (h : Reads decode v a) (hv : v ≠ .null) :
    Reads (optional decode) v (some a) := fun w hw s ↦ by
  have hsome : Decoder.optional decode s (Draft.ofJson w) =
      (decode s (Draft.ofJson w)).map some := by
    have hw' := hw.ne_null hv
    cases w with
    | null => exact absurd rfl hw'
    | _ => rfl
  rw [hsome, h w hw s, permit_map]

theorem items_ofItems {s : Standing} {vs ws : List Json} {as : List α}
    (h : List.Forall₂ (Reads decode) vs as) (hws : List.Forall₂ Json.Rearranges ws vs) :
    items decode s (Draft.ofJson.ofItems ws) =
      syntactic (s.permit (Json.depth.depthOfItems ws) as) := by
  induction h generalizing ws with
  | nil =>
    cases hws
    rw [Json.depth.depthOfItems, s.permit_zero]
    rfl
  | @cons v a vs as hv _ ih =>
    cases hws with
    | @cons w _ ws _ hw hws =>
      rw [Draft.ofJson.ofItems, items, hv w hw s, ih hws, Json.depth.depthOfItems]
      exact permit_bind (permit_bind_ok rfl)

theorem reads_list {vs : List Json} {as : List α} (h : List.Forall₂ (Reads decode) vs as) :
    Reads (list decode) (.array vs) as := by
  intro w hw s
  obtain ⟨ws, rfl, hws⟩ := hw.exists_eq_array
  rw [Draft.ofJson, list, Json.depth]
  refine enter_bind fun inside ↦ ?_
  rw [items_ofItems h hws]
  exact permit_bind_ok rfl

/-- A list is read back if its members are. -/
theorem reads_list_map {xs : List β} {encode : β → Json} {f : β → α}
    (h : ∀ x ∈ xs, Reads decode (encode x) (f x)) :
    Reads (list decode) (.array (xs.map encode)) (xs.map f) := by
  refine reads_list ?_
  rw [List.forall₂_map_left_iff, List.forall₂_map_right_iff, List.forall₂_same]
  exact h

end Decoder

end MappingGraph
