import Mathlib.Data.List.Nodup
import Mathlib.Data.List.Perm.Subperm
import Mathlib.Logic.Relation
import MappingGraph.Proofs.Schema.Places

/-!
# Which declaration a search finds

A property is declared for a schema if the schema itself has it or some schema that is reached
through branches.  `Schema.Declares` says this, and `Schema.findProperty_isSome_iff` that a search
finds a declaration exactly when there is one.

There may be several.  `Schema.First` describes the one that is found: a schema's own declaration
comes first, and otherwise the search commits to the first branch that has any, not counting what
can be reached only by going back to a schema on the way.  That `Schema.findProperty` answers just
this one is `Schema.findProperty_eq_some_iff`.

The search remembers every pointer it entered and never enters one again.  What was entered is on
the way to the present schema, or it was searched to the end: it has no declaration, and its
branches were entered as well.  This is the invariant, `Schema.Entered`.  So a branch that is left
out, because it was entered before, would not have had a declaration to offer.
-/

set_option autoImplicit false

namespace MappingGraph.Schema

variable {root : Json} {name : String} {start a b c d : Place} {way entered entered' : List Pointer}

/-! ## Declarations -/

/-- The property is declared by the schema itself or by one that is reached through branches. -/
def Declares (root : Json) (name : String) (c d : Place) : Prop :=
  ∃ c', Relation.ReflTransGen (fun a b ↦ b ∈ branches root a) c c' ∧ property? name c' = some d

/-- The same, but none of the branches on the way there may be at one of the pointers. -/
def DeclaresOff (root : Json) (name : String) (way : List Pointer) (c d : Place) : Prop :=
  ∃ c', Relation.ReflTransGen (fun a b ↦ b ∈ branches root a ∧ b.pointer ∉ way) c c' ∧
    property? name c' = some d

/-- **The declaration that comes first.**  `way` has the pointers of the schemas on the way to the
present one.  A branch is taken if no branch before it leads to a declaration without going back to
the way. -/
inductive First (root : Json) (name : String) : (way : List Pointer) → (c d : Place) → Prop
  | own {way : List Pointer} {c d : Place} (h : property? name c = some d) : First root name way c d
  | branch {way : List Pointer} {b c d : Place} {earlier later : List Place}
    (hnone : property? name c = none) (hb : branches root c = earlier ++ b :: later)
    (hearlier : ∀ a ∈ earlier, a.pointer ∉ way → ∀ d, ¬ DeclaresOff root name way a d)
    (hnew : b.pointer ∉ way) (h : First root name (b.pointer :: way) b d) : First root name way c d

theorem DeclaresOff.declares (h : DeclaresOff root name way c d) : Declares root name c d := by
  obtain ⟨c', hway, hd⟩ := h
  exact ⟨c', Relation.ReflTransGen.mono (fun _ _ h ↦ h.1) _ _ hway, hd⟩

theorem DeclaresOff.of_cons {p : Pointer} (h : DeclaresOff root name (p :: way) c d) :
    DeclaresOff root name way c d := by
  obtain ⟨c', hway, hd⟩ := h
  exact ⟨c', Relation.ReflTransGen.mono
    (fun _ _ h ↦ ⟨h.1, fun hmem ↦ h.2 (List.mem_cons_of_mem p hmem)⟩) _ _ hway, hd⟩

/-- The first declaration is one. -/
theorem First.declaresOff (h : First root name way c d) : DeclaresOff root name way c d := by
  induction h with
  | @own way c d h => exact ⟨c, .refl, h⟩
  | branch _ hb _ hnew _ ih =>
    obtain ⟨c', hway, hd⟩ := ih.of_cons
    exact ⟨c', .head ⟨hb ▸ List.mem_append_right _ List.mem_cons_self, hnew⟩ hway, hd⟩

/-- **There is only one first declaration.** -/
theorem First.unique (h : First root name way c a) (h' : First root name way c b) : a = b := by
  induction h generalizing b with
  | own h =>
    cases h' with
    | own h' => exact Option.some.inj (h.symm.trans h')
    | branch hnone => cases h.symm.trans hnone
  | @branch way x c d earlier later hnone hx hearlier hnew h ih =>
    cases h' with
    | own h' => cases hnone.symm.trans h'
    | @branch _ y _ _ earlier' later' _ hy hearlier' hnew' h' =>
      -- the two branches stand at one position, since neither list of earlier ones has the other
      rcases List.append_eq_append_iff.mp (hx.symm.trans hy) with ⟨l, hl, hr⟩ | ⟨l, hl, hr⟩
      · cases l with
        | nil =>
          obtain rfl := (List.cons.inj hr).1
          exact ih h'
        | cons z l =>
          obtain rfl := (List.cons.inj hr).1
          refine absurd h.declaresOff.of_cons (hearlier' x ?_ hnew _)
          exact hl ▸ List.mem_append_right _ List.mem_cons_self
      · cases l with
        | nil =>
          obtain rfl := (List.cons.inj hr).1
          exact ih h'
        | cons z l =>
          obtain rfl := (List.cons.inj hr).1
          refine absurd h'.declaresOff.of_cons (hearlier y ?_ hnew' _)
          exact hl ▸ List.mem_append_right _ List.mem_cons_self

/-! ## What was entered -/

/-- What holds of the pointers entered so far, while those of `way` are still being searched. -/
structure Entered (root : Json) (name : String) (start : Place) (way entered : List Pointer) :
    Prop where
  nodup : entered.Nodup
  catalogued : ∀ p ∈ entered, p ∈ catalogue root start
  onWay : ∀ p ∈ way, p ∈ entered
  /-- What is done with has no declaration, and its branches were entered as well. -/
  done : ∀ c, Placed root start c → c.pointer ∈ entered → c.pointer ∉ way →
    property? name c = none ∧ ∀ b ∈ branches root c, b.pointer ∈ entered

namespace Entered

theorem length_le (h : Entered root name start way entered) :
    entered.length ≤ (catalogue root start).length :=
  (List.subperm_of_subset h.nodup h.catalogued).length_le

theorem enter (h : Entered root name start way entered) (hb : Placed root start b)
    (hnew : b.pointer ∉ entered) :
    Entered root name start (b.pointer :: way) (b.pointer :: entered) where
  nodup := List.nodup_cons.mpr ⟨hnew, h.nodup⟩
  catalogued p hp := by
    rcases List.mem_cons.mp hp with rfl | hp
    · exact hb.mem_catalogue
    · exact h.catalogued p hp
  onWay p hp := by
    rcases List.mem_cons.mp hp with rfl | hp
    · exact List.mem_cons_self
    · exact List.mem_cons_of_mem _ (h.onWay p hp)
  done c hc hmem hway := by
    rw [List.mem_cons, not_or] at hway
    obtain ⟨hnone, hbelow⟩ := h.done c hc ((List.mem_cons.mp hmem).resolve_left hway.1) hway.2
    exact ⟨hnone, fun a ha ↦ List.mem_cons_of_mem _ (hbelow a ha)⟩

theorem leave (h : Entered root name start (b.pointer :: way) entered) (hb : Placed root start b)
    (hnone : property? name b = none) (hbelow : ∀ a ∈ branches root b, a.pointer ∈ entered) :
    Entered root name start way entered where
  nodup := h.nodup
  catalogued := h.catalogued
  onWay p hp := h.onWay p (List.mem_cons_of_mem _ hp)
  done c hc hmem hway := by
    by_cases heq : c.pointer = b.pointer
    · rw [eq_of_pointer_eq hc.valid hb.valid heq]
      exact ⟨hnone, hbelow⟩
    · refine h.done c hc hmem fun hcons ↦ ?_
      exact (List.mem_cons.mp hcons).elim heq hway

/-- What is done with leads to no declaration without going back to the way. -/
theorem not_declaresOff (h : Entered root name start way entered) (hc : Placed root start c)
    (hmem : c.pointer ∈ entered) (hoff : c.pointer ∉ way) : ¬ DeclaresOff root name way c d := by
  rintro ⟨c', hway, hd⟩
  induction hway using Relation.ReflTransGen.head_induction_on with
  | refl => cases hd.symm.trans (h.done c' hc hmem hoff).1
  | head hstep _ ih =>
    have hbelow := (h.done _ hc hmem hoff).2 _ hstep.1
    exact ih (hc.of_mem_branches hstep.1) hbelow hstep.2

end Entered

/-! ## The search -/

/-- What a search of a schema comes to: the first declaration, or else everything below it was
entered, and there is none. -/
def Outcome (root : Json) (name : String) (start : Place) (way entered : List Pointer) (c : Place) :
    Option Place × List Pointer → Prop
  | (some d, _) => First root name way c d
  | (none, entered') => (∀ p ∈ entered, p ∈ entered') ∧ Entered root name start way entered' ∧
      property? name c = none ∧ ∀ b ∈ branches root c, b.pointer ∈ entered'

/-- More may have been entered before. -/
theorem Outcome.of_subset {result : Option Place × List Pointer}
    (hsub : ∀ p ∈ entered, p ∈ entered') (h : Outcome root name start way entered' c result) :
    Outcome root name start way entered c result := by
  obtain ⟨found, entered''⟩ := result
  cases found with
  | some d => exact h
  | none => exact ⟨fun p hp ↦ h.1 p (hsub p hp), h.2⟩

/-- The branches of a schema are tried one after the other.  `earlier` are those tried before. -/
theorem firstFound_outcome {budget : Nat} (hc : Placed root start c)
    (hnone : property? name c = none)
    (hsearch : ∀ b entered, Placed root start b →
      Entered root name start (b.pointer :: way) (b.pointer :: entered) →
      (catalogue root start).length < budget + (b.pointer :: entered).length →
      Outcome root name start (b.pointer :: way) (b.pointer :: entered) b
        (search root name budget b (b.pointer :: entered)))
    (earlier later : List Place) (hsplit : branches root c = earlier ++ later)
    (hE : Entered root name start way entered)
    (hearlier : ∀ b ∈ earlier, b.pointer ∈ entered)
    (hbudget : (catalogue root start).length < budget + 1 + entered.length) :
    Outcome root name start way entered c
      (firstFound (search root name budget) later entered) := by
  induction later generalizing earlier entered with
  | nil =>
    rw [List.append_nil] at hsplit
    exact ⟨fun _ ↦ id, hE, hnone, hsplit ▸ hearlier⟩
  | cons b later ih =>
    have hsplit' : branches root c = (earlier ++ [b]) ++ later := by
      rw [hsplit, List.append_assoc, List.singleton_append]
    have hb : Placed root start b :=
      hc.of_mem_branches (hsplit ▸ List.mem_append_right _ List.mem_cons_self)
    rw [firstFound]
    split_ifs with hmem
    · refine ih (earlier ++ [b]) hsplit' hE (fun a ha ↦ ?_) hbudget
      rcases List.mem_append.mp ha with ha | ha
      · exact hearlier a ha
      · rw [List.mem_singleton.mp ha]
        exact hmem
    · have hout := hsearch b entered hb (hE.enter hb hmem) (by rw [List.length_cons]; omega)
      revert hout
      cases search root name budget b (b.pointer :: entered) with
      | mk result entered' =>
        cases result with
        | some d =>
          intro hfirst
          refine .branch hnone hsplit (fun a ha hoff d ↦ ?_) (fun h ↦ hmem (hE.onWay _ h)) hfirst
          have haplaced := hc.of_mem_branches (hsplit ▸ List.mem_append_left _ ha)
          exact hE.not_declaresOff haplaced (hearlier a ha) hoff
        | none =>
          rintro ⟨hgrow, hE', hnone', hbelow⟩
          have hE'' := hE'.leave hb hnone' hbelow
          have hsub : ∀ p ∈ entered, p ∈ entered' := fun p hp ↦ hgrow p (List.mem_cons_of_mem _ hp)
          have hlen := (List.subperm_of_subset hE.nodup hsub).length_le
          refine .of_subset hsub (ih (earlier ++ [b]) hsplit' hE'' (fun a ha ↦ ?_) (by omega))
          rcases List.mem_append.mp ha with ha | ha
          · exact hsub _ (hearlier a ha)
          · rw [List.mem_singleton.mp ha]
            exact hgrow _ List.mem_cons_self

/-- **A search comes to the first declaration**, or it enters everything and finds none.  It cannot
run out of budget: each nested search enters a pointer of the catalogue that is new. -/
theorem search_outcome (budget : Nat) (hc : Placed root start c)
    (hE : Entered root name start way entered)
    (hbudget : (catalogue root start).length < budget + entered.length) :
    Outcome root name start way entered c (search root name budget c entered) := by
  induction budget generalizing c way entered with
  | zero =>
    have hle := hE.length_le
    omega
  | succ budget ih =>
    rw [search]
    cases hp : property? name c with
    | some d => exact .own hp
    | none =>
      exact firstFound_outcome hc hp (fun b entered hb hE hlen ↦ ih hb hE hlen) [] _
        (List.nil_append _).symm hE (fun b hb ↦ absurd hb List.not_mem_nil) hbudget

/-- The outcome of a search from the start. -/
theorem findProperty_outcome (name : String) (hc : c.Valid root) :
    Outcome root name c [c.pointer] [c.pointer] c
      (search root name (searchBudget root) c [c.pointer]) := by
  have hplaced := placed_start hc
  refine search_outcome _ hplaced ⟨List.nodup_singleton _, fun p hp ↦ ?_, fun _ ↦ id, ?_⟩ ?_
  · rw [List.mem_singleton.mp hp]
    exact hplaced.mem_catalogue
  · intro b _ hmem hoff
    exact absurd hmem hoff
  · have hle := length_catalogue_le hc
    rw [List.length_singleton]
    omega

/-- Where a search ends without a declaration, there is none. -/
theorem not_declares_of_findProperty_eq_none (hc : c.Valid root)
    (h : findProperty root name c = none) : ¬ Declares root name c d := by
  have hout := findProperty_outcome name hc
  rw [findProperty] at h
  cases hs : search root name (searchBudget root) c [c.pointer] with
  | mk result entered =>
    rw [hs] at hout h
    subst h
    obtain ⟨_, hE, hnone, hbelow⟩ := hout
    have hE' := hE.leave (placed_start hc) hnone hbelow
    rintro ⟨c', hway, hd⟩
    have hmem : c'.pointer ∈ entered ∧ Placed root c c' := by
      clear hd
      induction hway with
      | refl => exact ⟨hE.onWay _ List.mem_cons_self, placed_start hc⟩
      | tail _ hstep ih =>
        exact ⟨(hE'.done _ ih.2 ih.1 List.not_mem_nil).2 _ hstep, ih.2.of_mem_branches hstep⟩
    cases hd.symm.trans (hE'.done c' hmem.2 hmem.1 List.not_mem_nil).1

/-- **A search answers the first declaration.** -/
theorem findProperty_eq_some_iff (hc : c.Valid root) :
    findProperty root name c = some d ↔ First root name [c.pointer] c d := by
  have hfound : ∀ d, findProperty root name c = some d → First root name [c.pointer] c d := by
    intro d h
    have hout := findProperty_outcome name hc
    rw [findProperty] at h
    cases hs : search root name (searchBudget root) c [c.pointer] with
    | mk result entered =>
      rw [hs] at hout h
      subst h
      exact hout
  refine ⟨hfound d, fun h ↦ ?_⟩
  cases hf : findProperty root name c with
  | some d' => rw [(hfound d' hf).unique h]
  | none =>
    exact absurd h.declaresOff.declares (not_declares_of_findProperty_eq_none hc hf)

/-- **A search finds a declaration exactly when there is one.** -/
theorem findProperty_isSome_iff (hc : c.Valid root) :
    (findProperty root name c).isSome ↔ ∃ d, Declares root name c d := by
  cases hf : findProperty root name c with
  | some d =>
    have hfirst := (findProperty_eq_some_iff hc).mp hf
    exact iff_of_true rfl ⟨d, hfirst.declaresOff.declares⟩
  | none =>
    refine iff_of_false Bool.false_ne_true ?_
    rintro ⟨d, hd⟩
    exact not_declares_of_findProperty_eq_none hc hf hd

end MappingGraph.Schema
