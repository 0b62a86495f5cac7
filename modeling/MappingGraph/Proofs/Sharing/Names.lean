import Mathlib.Data.Finset.Dedup
import Mathlib.Data.List.Nodup
import Mathlib.Data.List.Perm.Subperm
import MappingGraph.Proofs.Text.Numeral
import MappingGraph.Sharing

/-!
# The names of shared values

Two nodes may ask for one name, and then the later one gets a number.  `Sharing.Seeks` is the search
for a free number, one step for each name that is taken.  The base and the first numbered names are
one more than the names taken, so one of them is free; hence the search ends whatever is taken, and
it ends with `Sharing.freeName` (`Sharing.seeks_iff`).

Naming changes neither the nodes nor their order.  `Sharing.WellNamed` says what the names are like:
different identifiers, each that of its node with a number where it has to be.  A name with a number
may be what another node asks for, which is why the invariant of the run is about all names that
were chosen and not about the bases (`Graph.nameShared_eq_freeName`).
-/

set_option autoImplicit false

namespace MappingGraph

namespace Sharing

variable {base name found : String} {taken : List String}

theorem toList_numbered (base : String) (k : Nat) :
    (numbered base k).toList = base.toList ++ '_' :: Text.natDigits (k + 2) := by
  simp [numbered, Text.natText]

theorem numbered_injective {j k : Nat} (h : numbered base j = numbered base k) : j = k := by
  have hl := congrArg String.toList h
  rw [toList_numbered, toList_numbered] at hl
  have := Text.natDigits_injective (List.cons.inj (List.append_cancel_left hl)).2
  omega

theorem numbered_ne (base : String) (k : Nat) : numbered base k ≠ base := by
  intro h
  have hl := congrArg (List.length ∘ String.toList) h
  rw [Function.comp_apply, Function.comp_apply, toList_numbered, List.length_append,
    List.length_cons] at hl
  omega

/-- The names that are tried: the base, then the base with a number. -/
def candidates (base : String) (n : Nat) : List String :=
  base :: (List.range n).map (numbered base)

theorem nodup_candidates (base : String) (n : Nat) : (candidates base n).Nodup := by
  refine List.nodup_cons.mpr ⟨fun h ↦ ?_, List.nodup_range.map fun _ _ ↦ numbered_injective⟩
  obtain ⟨k, _, hk⟩ := List.mem_map.mp h
  exact numbered_ne base k hk

/-- One name more is tried than names are taken, so one of them is free. -/
theorem exists_candidate_free (base : String) (taken : List String) :
    ∃ name ∈ candidates base taken.length, name ∉ taken := by
  by_contra hall
  push Not at hall
  have hle := (List.subperm_of_subset (nodup_candidates base taken.length) hall).length_le
  rw [candidates, List.length_cons, List.length_map, List.length_range] at hle
  omega

theorem find?_candidates (base : String) (taken : List String) :
    (candidates base taken.length).find? (· ∉ taken) = some (freeName base taken) := by
  obtain ⟨name, hmem, hfree⟩ := exists_candidate_free base taken
  have hsome : ((candidates base taken.length).find? (· ∉ taken)).isSome := by
    rw [List.find?_isSome]
    exact ⟨name, hmem, decide_eq_true hfree⟩
  obtain ⟨found, hfound⟩ := Option.isSome_iff_exists.mp hsome
  rw [hfound]
  exact congrArg some (congrArg (Option.getD · base) hfound).symm

/-- **A name that is chosen is free.** -/
theorem freeName_not_mem (base : String) (taken : List String) : freeName base taken ∉ taken := by
  simpa using List.find?_some (find?_candidates base taken)

/-- A number that is needed is at most one more than the count of the names taken. -/
theorem freeName_eq (base : String) (taken : List String) : freeName base taken = base ∨
    ∃ k, 2 ≤ k ∧ k ≤ taken.length + 1 ∧ freeName base taken = base ++ "_" ++ Text.natText k := by
  refine (List.mem_cons.mp (List.mem_of_find?_eq_some (find?_candidates base taken))).imp_right ?_
  intro hmem
  obtain ⟨k, hk, heq⟩ := List.mem_map.mp hmem
  have hlt : k < taken.length := List.mem_range.mp hk
  exact ⟨k + 2, by omega, by omega, heq.symm⟩

/-! ## The search -/

/-- The search for a free name: a name is kept if it is free, and otherwise the base is tried with
the next number. -/
inductive Seeks (base : String) (taken : Finset String) :
    (name : String) → (next : Nat) → (found : String) → Prop
  | free {name : String} {next : Nat} (h : name ∉ taken) : Seeks base taken name next name
  | taken {name found : String} {next : Nat} (h : name ∈ taken)
    (later : Seeks base taken (base ++ "_" ++ Text.natText next) (next + 1) found) :
    Seeks base taken name next found

/-- A search has one outcome at most. -/
theorem Seeks.unique {taken : Finset String} {next : Nat} {other : String}
    (h : Seeks base taken name next found) (h' : Seeks base taken name next other) :
    found = other := by
  induction h with
  | free hfree =>
    cases h' with
    | free => rfl
    | taken ht => exact absurd ht hfree
  | taken ht _ ih =>
    cases h' with
    | free hfree => exact absurd ht hfree
    | taken _ later => exact ih later

/-- The search goes through the candidates one by one. -/
theorem seeks_of_find? {n j : Nat}
    (h : (name :: (List.range' j n).map (numbered base)).find? (· ∉ taken) = some found) :
    Seeks base taken.toFinset name (j + 2) found := by
  induction n generalizing name j with
  | zero =>
    have hfree : name ∉ taken ∧ name = found := by simpa using h
    exact hfree.2 ▸ .free (List.mem_toFinset.not.mpr hfree.1)
  | succ n ih =>
    by_cases hmem : name ∈ taken
    · rw [List.find?_cons_of_neg (by simpa using hmem), List.range'_succ, List.map_cons] at h
      exact .taken (List.mem_toFinset.mpr hmem) (ih h)
    · rw [List.find?_cons_of_pos (by simpa using hmem)] at h
      exact Option.some.inj h ▸ .free (List.mem_toFinset.not.mpr hmem)

/-- **The search ends** whatever names are taken, and what it finds is the free name. -/
theorem seeks_iff :
    Seeks base taken.toFinset base 2 found ↔ found = freeName base taken := by
  have hends : Seeks base taken.toFinset base 2 (freeName base taken) := by
    have h := find?_candidates base taken
    rw [candidates, List.range_eq_range'] at h
    exact seeks_of_find? h
  exact ⟨fun h ↦ h.unique hends, fun h ↦ h ▸ hends⟩

/-! ## Identifiers -/

/-- A letter or digit of ASCII, or the underscore. -/
def IsWordChar (c : Char) : Prop :=
  ('a' ≤ c ∧ c ≤ 'z') ∨ ('A' ≤ c ∧ c ≤ 'Z') ∨ ('0' ≤ c ∧ c ≤ '9') ∨ c = '_'

theorem isWordChar_of_isAlphanum {c : Char} (h : c.isAlphanum = true) : IsWordChar c := by
  have hrange : ∀ {lo hi : Char}, (c.val ≥ lo.val && c.val ≤ hi.val) = true → lo ≤ c ∧ c ≤ hi :=
    fun h ↦ by rwa [Bool.and_eq_true, decide_eq_true_iff, decide_eq_true_iff] at h
  have hupper : c.isUpper = true → 'A' ≤ c ∧ c ≤ 'Z' := of_decide_eq_true
  have hclass : ((c.isUpper || c.isLower) || c.isDigit) = true := h
  rw [Bool.or_eq_true, Bool.or_eq_true] at hclass
  rcases hclass with (h | h) | h
  · exact .inr (.inl (hupper h))
  · exact .inl (hrange h)
  · exact .inr (.inr (.inl (hrange h)))

/-- A name of a shared value: the fixed beginning and then any identifier. -/
def IsName (name : String) : Prop :=
  ∃ rest, name = "shared_" ++ rest ∧ ∀ c ∈ rest.toList, IsWordChar c

theorem isName_varNameFor (id : String) : IsName (varNameFor id) := by
  refine ⟨_, rfl, fun c hc ↦ ?_⟩
  rw [String.toList_ofList] at hc
  obtain ⟨d, _, rfl⟩ := List.mem_map.mp hc
  split
  · next h => exact isWordChar_of_isAlphanum h
  · exact .inr (.inr (.inr rfl))

theorem IsName.numbered (h : IsName base) (k : Nat) :
    IsName (base ++ "_" ++ Text.natText k) := by
  obtain ⟨rest, rfl, hrest⟩ := h
  refine ⟨rest ++ "_" ++ Text.natText k, by simp only [String.append_assoc], fun c hc ↦ ?_⟩
  rw [String.toList_append, String.toList_append, List.mem_append, List.mem_append] at hc
  rcases hc with (hc | hc) | hc
  · exact hrest c hc
  · exact .inr (.inr (.inr (List.mem_singleton.mp hc)))
  · rw [Text.natText, String.toList_ofList] at hc
    refine isWordChar_of_isAlphanum ?_
    exact Bool.or_eq_true_iff.mpr (.inr (Text.isDigit_of_mem_natDigits hc))

/-- What the names of shared values are like. -/
structure WellNamed (sharing : Sharing) : Prop where
  nodup : (sharing.nodes.map SharedNode.varName).Nodup
  isName : ∀ s ∈ sharing.nodes, IsName s.varName
  /-- A name is that of the node, with a number where that is taken.  The numbers go up to the count
  of the shared values at most. -/
  ofNode : ∀ s ∈ sharing.nodes, s.varName = varNameFor s.node ∨
    ∃ k, 2 ≤ k ∧ k ≤ sharing.nodes.length ∧
      s.varName = varNameFor s.node ++ "_" ++ Text.natText k
  /-- It is found by the search among the names that were chosen before. -/
  sought : ∀ before s after, sharing.nodes = before ++ s :: after →
    Seeks (varNameFor s.node) (before.map SharedNode.varName).toFinset (varNameFor s.node) 2
      s.varName

end Sharing

namespace Graph

variable {g : Graph} {taken ids : List String}

/-- Naming keeps the nodes and their order. -/
theorem map_node_nameShared (g : Graph) (taken ids : List String) :
    (g.nameShared taken ids).map SharedNode.node = ids := by
  induction ids generalizing taken with
  | nil => rfl
  | cons id ids ih => rw [nameShared, List.map_cons, ih]

/-- Naming goes with the nodes and says how often each is used. -/
theorem map_nameShared (g : Graph) (taken ids : List String) :
    (g.nameShared taken ids).map (fun s ↦ (s.node, s.refCount)) =
      ids.map fun id ↦ (id, g.refCount id) := by
  induction ids generalizing taken with
  | nil => rfl
  | cons id ids ih => rw [nameShared, List.map_cons, List.map_cons, ih]

/-- **Each name is the one that is free** after all those that were chosen before it. -/
theorem nameShared_eq_freeName {before after : List SharedNode} {s : SharedNode}
    (h : g.nameShared taken ids = before ++ s :: after) :
    s.varName = Sharing.freeName (Sharing.varNameFor s.node)
      ((before.map SharedNode.varName).reverse ++ taken) := by
  induction ids generalizing taken before with
  | nil => exact absurd h.symm (List.append_ne_nil_of_right_ne_nil _ (List.cons_ne_nil _ _))
  | cons id ids ih =>
    rw [nameShared] at h
    cases before with
    | nil =>
      obtain ⟨rfl, -⟩ := List.cons.inj h
      rfl
    | cons b before =>
      obtain ⟨rfl, hrest⟩ := List.cons.inj h
      rw [ih hrest, List.map_cons, List.reverse_cons, List.append_assoc, List.singleton_append]

theorem varName_not_mem_of_nameShared {s : SharedNode} (h : s ∈ g.nameShared taken ids) :
    s.varName ∉ taken := by
  obtain ⟨before, after, hsplit⟩ := List.append_of_mem h
  rw [nameShared_eq_freeName hsplit]
  exact fun hmem ↦ Sharing.freeName_not_mem _ _ (List.mem_append_right _ hmem)

/-- **No two shared values have one name.** -/
theorem nameShared_nodup (g : Graph) (taken ids : List String) :
    ((g.nameShared taken ids).map SharedNode.varName).Nodup := by
  induction ids generalizing taken with
  | nil => exact List.nodup_nil
  | cons id ids ih =>
    rw [nameShared, List.map_cons]
    refine List.nodup_cons.mpr ⟨fun h ↦ ?_, ih _⟩
    obtain ⟨s, hs, hname⟩ := List.mem_map.mp h
    exact varName_not_mem_of_nameShared hs (hname ▸ List.mem_cons_self)

theorem wellNamed_nameShared (g : Graph) (ids : List String) :
    (⟨g.nameShared [] ids⟩ : Sharing).WellNamed := by
  have hfree : ∀ before s after, g.nameShared [] ids = before ++ s :: after →
      s.varName = Sharing.freeName (Sharing.varNameFor s.node)
        (before.map SharedNode.varName).reverse := fun before s after h ↦ by
    rw [nameShared_eq_freeName h, List.append_nil]
  have hofNode : ∀ s ∈ g.nameShared [] ids, s.varName = Sharing.varNameFor s.node ∨
      ∃ k, 2 ≤ k ∧ k ≤ (g.nameShared [] ids).length ∧
        s.varName = Sharing.varNameFor s.node ++ "_" ++ Text.natText k := by
    intro s hs
    obtain ⟨before, after, hsplit⟩ := List.append_of_mem hs
    have hlength : before.length + 1 ≤ (g.nameShared [] ids).length := by
      rw [hsplit, List.length_append, List.length_cons]
      omega
    rw [hfree before s after hsplit]
    refine (Sharing.freeName_eq _ _).imp_right ?_
    rintro ⟨k, hk, hle, heq⟩
    rw [List.length_reverse, List.length_map] at hle
    exact ⟨k, hk, hle.trans hlength, heq⟩
  refine ⟨nameShared_nodup g [] ids, fun s hs ↦ ?_, hofNode, fun before s after h ↦ ?_⟩
  · rcases hofNode s hs with heq | ⟨k, _, _, heq⟩
    · exact heq ▸ Sharing.isName_varNameFor s.node
    · exact heq ▸ (Sharing.isName_varNameFor s.node).numbered k
  · rw [← List.toFinset_reverse]
    exact Sharing.seeks_iff.mpr (hfree before s after h)

/-- **The names of shared values are different identifiers**, each made from the id of its node,
whatever the ids are.  The search for a name ends for every base and all names taken. -/
theorem sharing_wellNamed (g : Graph) (out : BuildOutput) (registry : Registry)
    (options : Options) :
    (g.sharing out registry options).WellNamed ∧
      ∀ (base : String) (taken : Finset String), ∃! name, Sharing.Seeks base taken base 2 name := by
  refine ⟨?_, fun base taken ↦ ?_⟩
  · rw [sharing]
    split
    · exact wellNamed_nameShared g _
    · exact ⟨List.nodup_nil, nofun, nofun, fun _ _ _ h ↦ absurd h.symm (by simp)⟩
  · rw [← taken.toList_toFinset]
    exact ⟨_, Sharing.seeks_iff.mpr rfl, fun _ ↦ Sharing.seeks_iff.mp⟩

end Graph

end MappingGraph
