import MappingGraph.Proofs.Schema.Search

/-!
# The search without its budget

The definition of a search carries a budget, which a search as such does not have: it goes into a
branch, and into the branches of that, for as long as there are any that were not entered.
`Schema.Tries` says what this comes to, as a relation with finite derivations, so that an outcome
there is one the search ends with.

The pointers grow on the way down and a reference may jump anywhere, so no branch is smaller than
the schema it belongs to.  What ends the search is that every place it goes into is new to it and is
one of the catalogue: so each nested search has one pointer less to meet.  The budget counts these
pointers, hence it is never used up and the two searches agree (`Schema.tries_firstFound`).

With `Schema.findProperty_isSome_iff`, that the places left out because they were entered before
have nothing to offer, this gives the main result, `Schema.findProperty_settles`.
-/

set_option autoImplicit false

namespace MappingGraph.Schema

variable {root : Json} {name : String} {start b c d : Place} {way entered : List Pointer}
  {places : List Place} {outcome : Option Place × List Pointer}

/-- **A search without a budget** goes through a list of places.  It ends with the declaration it
found, if any, and the pointers entered by then. -/
inductive Tries (root : Json) (name : String) :
    List Place → List Pointer → Option Place × List Pointer → Prop
  | nil {entered : List Pointer} : Tries root name [] entered (none, entered)
  | skip {b : Place} {places : List Place} {entered : List Pointer}
    {outcome : Option Place × List Pointer} (hmem : b.pointer ∈ entered)
    (hrest : Tries root name places entered outcome) :
    Tries root name (b :: places) entered outcome
  | own {b d : Place} {places : List Place} {entered : List Pointer} (hnew : b.pointer ∉ entered)
    (hd : property? name b = some d) :
    Tries root name (b :: places) entered (some d, b.pointer :: entered)
  | within {b d : Place} {places : List Place} {entered entered' : List Pointer}
    (hnew : b.pointer ∉ entered) (hnone : property? name b = none)
    (hbelow : Tries root name (branches root b) (b.pointer :: entered) (some d, entered')) :
    Tries root name (b :: places) entered (some d, entered')
  | past {b : Place} {places : List Place} {entered entered' : List Pointer}
    {outcome : Option Place × List Pointer} (hnew : b.pointer ∉ entered)
    (hnone : property? name b = none)
    (hbelow : Tries root name (branches root b) (b.pointer :: entered) (none, entered'))
    (hrest : Tries root name places entered' outcome) :
    Tries root name (b :: places) entered outcome

namespace Tries

/-- A search ends in one way only. -/
theorem unique {outcome' : Option Place × List Pointer} (h : Tries root name places entered outcome)
    (h' : Tries root name places entered outcome') : outcome = outcome' := by
  induction h generalizing outcome' with
  | nil =>
    cases h'
    rfl
  | skip hmem _ ih =>
    cases h' with
    | skip _ hrest => exact ih hrest
    | own hnew | within hnew | past hnew => exact absurd hmem hnew
  | own hnew hd =>
    cases h' with
    | skip hmem => exact absurd hmem hnew
    | own _ hd' => rw [Option.some.inj (hd.symm.trans hd')]
    | within _ hnone | past _ hnone => cases hd.symm.trans hnone
  | within hnew hnone _ ih =>
    cases h' with
    | skip hmem => exact absurd hmem hnew
    | own _ hd => cases hnone.symm.trans hd
    | within _ _ hbelow => exact ih hbelow
    | past _ _ hbelow => cases (Prod.mk.inj (ih hbelow)).1
  | past hnew hnone _ _ ihbelow ihrest =>
    cases h' with
    | skip hmem => exact absurd hmem hnew
    | own _ hd => cases hnone.symm.trans hd
    | within _ _ hbelow => cases (Prod.mk.inj (ihbelow hbelow)).1
    | past _ _ hbelow hrest =>
      obtain ⟨_, rfl⟩ := Prod.mk.inj (ihbelow hbelow)
      exact ihrest hrest

/-- No place is entered twice. -/
theorem nodup (h : Tries root name places entered outcome) (hentered : entered.Nodup) :
    outcome.2.Nodup := by
  induction h with
  | nil => exact hentered
  | skip _ _ ih => exact ih hentered
  | own hnew _ => exact List.nodup_cons.mpr ⟨hnew, hentered⟩
  | within hnew _ _ ih => exact ih (List.nodup_cons.mpr ⟨hnew, hentered⟩)
  | past hnew _ _ _ ihbelow ihrest =>
    exact ihrest (ihbelow (List.nodup_cons.mpr ⟨hnew, hentered⟩))

/-- Only places of the catalogue are entered. -/
theorem catalogued (h : Tries root name places entered outcome)
    (hplaces : ∀ b ∈ places, Placed root start b)
    (hentered : ∀ p ∈ entered, p ∈ catalogue root start) :
    ∀ p ∈ outcome.2, p ∈ catalogue root start := by
  induction h with
  | nil => exact hentered
  | skip _ _ ih => exact ih (fun b hb ↦ hplaces b (List.mem_cons_of_mem _ hb)) hentered
  | @own b _ places _ _ _ =>
    exact List.forall_mem_cons.mpr ⟨(hplaces b List.mem_cons_self).mem_catalogue, hentered⟩
  | @within b _ places _ _ _ _ _ ih =>
    have hb := hplaces b List.mem_cons_self
    exact ih (fun a ha ↦ hb.of_mem_branches ha)
      (List.forall_mem_cons.mpr ⟨hb.mem_catalogue, hentered⟩)
  | @past b places _ _ _ _ _ _ _ ihbelow ihrest =>
    have hb := hplaces b List.mem_cons_self
    refine ihrest (fun a ha ↦ hplaces a (List.mem_cons_of_mem _ ha)) ?_
    exact ihbelow (fun a ha ↦ hb.of_mem_branches ha)
      (List.forall_mem_cons.mpr ⟨hb.mem_catalogue, hentered⟩)

end Tries

/-- **The budget does not show.**  The induction is on the budget: a nested search has one less, and
one pointer more was entered. -/
theorem tries_firstFound (budget : Nat) (hplaces : ∀ b ∈ places, Placed root start b)
    (hE : Entered root name start way entered)
    (hbudget : (catalogue root start).length < budget + 1 + entered.length) :
    Tries root name places entered (firstFound (search root name budget) places entered) := by
  induction budget using Nat.strongRecOn generalizing places way entered with
  | _ budget ihbudget =>
    induction places generalizing entered with
    | nil => exact .nil
    | cons b places ih =>
      have hrest := fun a ha ↦ hplaces a (List.mem_cons_of_mem b ha)
      rw [firstFound]
      split_ifs with hmem
      · exact .skip hmem (ih hrest hE hbudget)
      · have hb := hplaces b List.mem_cons_self
        have hE' := hE.enter hb hmem
        have hle := hE'.length_le
        rw [List.length_cons] at hle
        obtain ⟨budget, rfl⟩ : ∃ k, budget = k + 1 := ⟨budget - 1, by omega⟩
        have hbudget' :
            (catalogue root start).length < budget + 1 + (b.pointer :: entered).length := by
          rw [List.length_cons]
          omega
        have hout := search_outcome (budget + 1) hb hE' hbudget'
        revert hout
        rw [search]
        cases hp : property? name b with
        | some d => exact fun _ ↦ .own hmem hp
        | none =>
          have hbelow := ihbudget budget (Nat.lt_succ_self budget)
            (fun a ha ↦ hb.of_mem_branches ha) hE' hbudget'
          revert hbelow
          cases firstFound (search root name budget) (branches root b) (b.pointer :: entered) with
          | mk result entered' =>
            cases result with
            | some d => exact fun hbelow _ ↦ .within hmem hp hbelow
            | none =>
              rintro hbelow ⟨hgrow, hE'', hnone, hall⟩
              have hsub : ∀ p ∈ entered, p ∈ entered' :=
                fun p hp ↦ hgrow p (List.mem_cons_of_mem _ hp)
              have hlen := (List.subperm_of_subset hE.nodup hsub).length_le
              exact .past hmem hp hbelow (ih hrest (hE''.leave hb hnone hall) (by omega))

/-- The budget of the search for a property does not show. -/
theorem tries_search (hc : c.Valid root) :
    Tries root name [c] [] (search root name (searchBudget root) c [c.pointer]) := by
  have hE : Entered root name c [] [] :=
    ⟨List.nodup_nil, fun _ h ↦ absurd h List.not_mem_nil, fun _ h ↦ absurd h List.not_mem_nil,
      fun _ _ h ↦ absurd h List.not_mem_nil⟩
  have hle := length_catalogue_le hc
  have h := @tries_firstFound root name c [] [] [c] (searchBudget root)
    (List.forall_mem_singleton.mpr (placed_start hc)) hE (by rw [List.length_nil]; omega)
  rw [firstFound, if_neg List.not_mem_nil] at h
  revert h
  cases search root name (searchBudget root) c [c.pointer] with
  | mk result entered =>
    cases result with
    | some d => exact id
    | none => exact id

/-- What a search for a property comes to. -/
structure Settles (root : Json) (name : String) (c : Place) : Prop where
  /-- It ends without any budget, in one way only. -/
  ends : ∃! outcome, Tries root name [c] [] outcome
  /-- The answer is the declaration it ends with. -/
  answer : ∀ outcome, Tries root name [c] [] outcome → findProperty root name c = outcome.1
  /-- No place is entered twice, and the number of those entered is bounded in advance. -/
  bound : ∀ outcome, Tries root name [c] [] outcome →
    outcome.2.Nodup ∧ outcome.2.length ≤ searchBudget root
  /-- There is an answer exactly if there is a declaration. -/
  complete : (findProperty root name c).isSome ↔ ∃ d, Declares root name c d
  /-- The answer is a declaration. -/
  sound : ∀ d, findProperty root name c = some d → Declares root name c d

/-- **A search ends, and it finds a declaration exactly if there is one**, for every document, every
schema at a pointer in it and every name.  What it leaves out, because it was entered before, never
hides one. -/
theorem findProperty_settles (hc : c.Valid root) : Settles root name c := by
  have htries := @tries_search _ name _ hc
  refine ⟨⟨_, htries, fun _ h ↦ h.unique htries⟩, fun outcome h ↦ ?_, fun outcome h ↦ ?_, ?_,
    fun d hd ↦ ?_⟩
  · rw [h.unique htries]
    rfl
  · have hnodup := h.nodup List.nodup_nil
    have hcatalogued := h.catalogued (List.forall_mem_singleton.mpr (placed_start hc))
      fun _ h ↦ absurd h List.not_mem_nil
    have hlen := (List.subperm_of_subset hnodup hcatalogued).length_le
    exact ⟨hnodup, hlen.trans (length_catalogue_le hc)⟩
  · exact findProperty_isSome_iff hc
  · exact ((findProperty_eq_some_iff hc).mp hd).declaresOff.declares

/-- Two unions that refer to each other, and a property behind the reference back. -/
def mutualUnions : Json :=
  .object [("$defs", .object
    [("A", .object [("anyOf", .array [.object [("$ref", .string "#/$defs/B")]])]),
     ("B", .object [("oneOf", .array
       [.object [("$ref", .string "#/$defs/A")],
        .object [("properties", .object [("x", .object [])])]])])])]

/-- The first of the two. -/
def mutualStart : Place :=
  ⟨⟨["$defs", "A"]⟩, .object [("anyOf", .array [.object [("$ref", .string "#/$defs/B")]])]⟩

/-- The search in one of them goes into the other, leaves the reference back out, and settles. -/
theorem settles_mutualUnions :
    mutualStart.Valid mutualUnions ∧ Settles mutualUnions "x" mutualStart :=
  ⟨rfl, findProperty_settles rfl⟩

end MappingGraph.Schema
