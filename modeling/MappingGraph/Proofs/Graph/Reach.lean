import Mathlib.Data.List.Basic
import MappingGraph.Graph.Reach

/-!
# What `gather` collects

`Graph.Reached` describes by two rules what can be reached from some starting points without
leaving a catalogue, and `Graph.mem_gather_iff` says that `gather` collects exactly this, however
many cycles there are.

A search from several starting points may also be seen as one search after the other, each of which
leaves out what the earlier ones have met.  This is `Graph.searches`, and it meets the same points in
the same order (`Graph.gather_eq_searches`).
-/

set_option autoImplicit false

namespace MappingGraph.Graph

/-- A point of the catalogue that is reached from the starting points by steps inside the
catalogue. -/
inductive Reached (next : String → List String) (catalogue starts : List String) : String → Prop
  | start {a : String} (hc : a ∈ catalogue) (hs : a ∈ starts) : Reached next catalogue starts a
  | step {a b : String} (ha : Reached next catalogue starts a) (hc : b ∈ catalogue)
      (hb : b ∈ next a) : Reached next catalogue starts b

variable {next : String → List String} {catalogue starts rest : List String} {a b : String}

namespace Reached

theorem mem (h : Reached next catalogue starts a) : a ∈ catalogue := by
  cases h with
  | start hc => exact hc
  | step _ hc => exact hc

/-- What is reached once a point was struck off is reached. -/
theorem of_erase (ha : a ∈ catalogue)
    (h : Reached next (catalogue.erase a) (next a ++ rest) b) :
    Reached next catalogue (a :: rest) b := by
  induction h with
  | start hc hs =>
    have hc' := List.mem_of_mem_erase hc
    rcases List.mem_append.mp hs with hs | hs
    · exact .step (.start ha List.mem_cons_self) hc' hs
    · exact .start hc' (List.mem_cons_of_mem a hs)
  | step _ hc hb ih => exact .step ih (List.mem_of_mem_erase hc) hb

/-- What is reached, is the first starting point or reached after that was struck off: of a way
that passes it, the part behind its last pass is enough. -/
theorem erase (h : Reached next catalogue (a :: rest) b) (hne : b ≠ a) :
    Reached next (catalogue.erase a) (next a ++ rest) b := by
  induction h with
  | start hc hs =>
    refine .start ((List.mem_erase_of_ne hne).mpr hc) ?_
    exact List.mem_append_right _ ((List.mem_cons.mp hs).resolve_left hne)
  | @step c b _ hc hb ih =>
    have hc' := (List.mem_erase_of_ne hne).mpr hc
    rcases eq_or_ne c a with rfl | hca
    · exact .start hc' (List.mem_append_left _ hb)
    · exact .step (ih hca) hc' hb

/-- A starting point outside of the catalogue leads nowhere. -/
theorem of_not_mem (h : Reached next catalogue (a :: rest) b) (ha : a ∉ catalogue) :
    Reached next catalogue rest b := by
  induction h with
  | start hc hs =>
    refine .start hc ((List.mem_cons.mp hs).resolve_left ?_)
    rintro rfl
    exact ha hc
  | step _ hc hb ih => exact .step ih hc hb

theorem mono {catalogue' starts' : List String} (h : Reached next catalogue starts a)
    (hc : ∀ b ∈ catalogue, b ∈ catalogue') (hs : ∀ b ∈ starts, b ∈ starts') :
    Reached next catalogue' starts' a := by
  induction h with
  | start hc' hs' => exact .start (hc _ hc') (hs _ hs')
  | step _ hc' hb ih => exact .step ih (hc _ hc') hb

end Reached

/-- **`gather` collects what can be reached**, and nothing else. -/
theorem mem_gather_iff : b ∈ gather next catalogue starts ↔ Reached next catalogue starts b := by
  fun_induction gather next catalogue starts with
  | case1 catalogue =>
    refine ⟨fun h ↦ absurd h List.not_mem_nil, fun h ↦ ?_⟩
    induction h with
    | start _ hs => exact absurd hs List.not_mem_nil
    | step _ _ _ ih => exact absurd ih List.not_mem_nil
  | case2 catalogue a rest ha ih =>
    rw [List.mem_cons, ih]
    constructor
    · rintro (rfl | h)
      · exact .start ha List.mem_cons_self
      · exact h.of_erase ha
    · intro h
      rcases eq_or_ne b a with rfl | hne
      · exact Or.inl rfl
      · exact Or.inr (h.erase hne)
  | case3 catalogue a rest ha ih =>
    rw [ih]
    exact ⟨fun h ↦ h.mono (fun _ ↦ id) fun _ ↦ List.mem_cons_of_mem a, fun h ↦ h.of_not_mem ha⟩

/-! ## One search after the other -/

/-- A search from each starting point in turn.  What a search has met is struck off for the later
ones, so a starting point that was met before adds nothing. -/
def searches (next : String → List String) : (catalogue starts : List String) → List String
  | _, [] => []
  | catalogue, a :: starts =>
    let met := gather next catalogue [a]
    met ++ searches next (catalogue.diff met) starts

/-- The points that are pending later are gathered later, without those met by then. -/
theorem gather_append (starts rest : List String) : gather next catalogue (starts ++ rest) =
    gather next catalogue starts ++
      gather next (catalogue.diff (gather next catalogue starts)) rest := by
  fun_induction gather next catalogue starts with
  | case1 catalogue => rw [List.nil_append, List.nil_append, List.diff_nil]
  | case2 catalogue a starts ha ih =>
    rw [List.cons_append, gather, if_pos ha, ← List.append_assoc, ih, List.diff_cons,
      List.cons_append]
  | case3 catalogue a starts ha ih => rw [List.cons_append, gather, if_neg ha, ih]

/-- **Gathering is searching from one starting point after the other.** -/
theorem gather_eq_searches (next : String → List String) (catalogue starts : List String) :
    gather next catalogue starts = searches next catalogue starts := by
  induction starts generalizing catalogue with
  | nil => rw [gather, searches]
  | cons a starts ih => rw [searches, ← ih, ← gather_append, List.singleton_append]

end MappingGraph.Graph
