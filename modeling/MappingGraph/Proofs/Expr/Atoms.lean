import MappingGraph.Proofs.Expr.Refs

/-!
# The atoms of an expression

Operators, lists and conditions put expressions together and bring in nothing of their own.  What is
brought in are literals, fields of the source and called functions with their settings.
`Expr.atoms` lists these from left to right.  Replacing references adds the atoms of what is put in
and takes none away (`Expr.mem_atoms_mapRefs`), so that what is known of the atoms of single nodes is
known of whole mappings.
-/

set_option autoImplicit false

namespace MappingGraph

/-- What an expression brings in that is neither put together of others nor a reference. -/
inductive Atom where
  | literal (value : Json) (type : LiteralType)
  | field (path : String)
  | call (function : String) (config : Option Json)

namespace Expr

variable {ρ σ : Type}

/-- The atoms from left to right. -/
def atoms : Expr ρ → List Atom
  | literal value type => [.literal value type]
  | field path => [.field path]
  | binary _ left right => left.atoms ++ right.atoms
  | unary _ operand => operand.atoms
  | call function args config => .call function config :: ofList args
  | conditional condition yes no => condition.atoms ++ yes.atoms ++ no.atoms
  | array elements => ofList elements
  | object entries => ofEntries entries
  | reference _ => []
where
  ofList : List (Expr ρ) → List Atom
    | [] => []
    | x :: xs => x.atoms ++ ofList xs
  ofEntries : List (String × Expr ρ) → List Atom
    | [] => []
    | (_, x) :: es => x.atoms ++ ofEntries es

theorem atomsOfList_eq_flatMap (xs : List (Expr ρ)) : atoms.ofList xs = xs.flatMap atoms := by
  induction xs with
  | nil => rfl
  | cons x xs ih => rw [atoms.ofList, ih, List.flatMap_cons]

theorem atomsOfEntries_eq_flatMap (es : List (String × Expr ρ)) :
    atoms.ofEntries es = es.flatMap fun p ↦ p.2.atoms := by
  induction es with
  | nil => rfl
  | cons p es ih => rw [atoms.ofEntries, ih, List.flatMap_cons]

variable {f : ρ → Expr σ} {a : Atom}

theorem mem_atomsOfList {xs : List (Expr ρ)} {x : Expr ρ} (hx : x ∈ xs) (ha : a ∈ x.atoms) :
    a ∈ atoms.ofList xs := by
  rw [atomsOfList_eq_flatMap]
  exact List.mem_flatMap.mpr ⟨x, hx, ha⟩

theorem mem_atomsOfEntries {es : List (String × Expr ρ)} {p : String × Expr ρ} (hp : p ∈ es)
    (ha : a ∈ p.2.atoms) : a ∈ atoms.ofEntries es := by
  rw [atomsOfEntries_eq_flatMap]
  exact List.mem_flatMap.mpr ⟨p, hp, ha⟩

/-- Arguments, elements and entries all bring in their atoms in the same way. -/
theorem mem_flatMap_atoms {α : Type} (xs : List α) (part : α → Expr ρ)
    (ih : ∀ x ∈ xs, a ∈ ((part x).mapRefs f).atoms ↔
      a ∈ (part x).atoms ∨ ∃ p ∈ (part x).refs, a ∈ (f p).atoms) :
    (a ∈ xs.flatMap fun x ↦ ((part x).mapRefs f).atoms) ↔
      (a ∈ xs.flatMap fun x ↦ (part x).atoms) ∨
        ∃ p ∈ xs.flatMap fun x ↦ (part x).refs, a ∈ (f p).atoms := by
  simp only [List.mem_flatMap]
  constructor
  · rintro ⟨x, hx, ha⟩
    rcases (ih x hx).mp ha with h | ⟨p, hp, h⟩
    · exact .inl ⟨x, hx, h⟩
    · exact .inr ⟨p, ⟨x, hx, hp⟩, h⟩
  · rintro (⟨x, hx, h⟩ | ⟨p, ⟨x, hx, hp⟩, h⟩)
    · exact ⟨x, hx, (ih x hx).mpr (.inl h)⟩
    · exact ⟨x, hx, (ih x hx).mpr (.inr ⟨p, hp, h⟩)⟩

/-- **An atom of the outcome** was there before or came in with what was put in. -/
theorem mem_atoms_mapRefs {e : Expr ρ} :
    a ∈ (e.mapRefs f).atoms ↔ a ∈ e.atoms ∨ ∃ p ∈ e.refs, a ∈ (f p).atoms := by
  induction e using ind with
  | literal | field => simp [mapRefs, atoms, refs]
  | binary op l r ihl ihr =>
    simp only [mapRefs, atoms, refs, List.mem_append, ihl, ihr, or_and_right, exists_or]
    exact or_or_or_comm
  | unary op x ih => rw [mapRefs, atoms, refs, atoms, ih]
  | conditional x y n ihx ihy ihn =>
    simp only [mapRefs, atoms, refs, List.mem_append, ihx, ihy, ihn, or_and_right, exists_or]
    exact (or_congr_left or_or_or_comm).trans or_or_or_comm
  | call fn args config ih =>
    simp only [mapRefs, atoms, refs, mapList_eq_map, atomsOfList_eq_flatMap, refsOfList_eq_flatMap,
      List.flatMap_map, List.mem_cons, or_assoc]
    exact or_congr_right (mem_flatMap_atoms args id ih)
  | array xs ih =>
    simp only [mapRefs, atoms, refs, mapList_eq_map, atomsOfList_eq_flatMap, refsOfList_eq_flatMap,
      List.flatMap_map]
    exact mem_flatMap_atoms xs id ih
  | object es ih =>
    simp only [mapRefs, atoms, refs, mapEntries_eq_map, atomsOfEntries_eq_flatMap,
      refsOfEntries_eq_flatMap, List.flatMap_map]
    exact mem_flatMap_atoms es Prod.snd ih
  | reference r => simp [mapRefs, atoms, refs]

end Expr

end MappingGraph
