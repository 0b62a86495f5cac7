import MappingGraph.Proofs.Text.Blank
import MappingGraph.Proofs.Text.Search
import MappingGraph.Schema.Handle

/-!
# The two readings of a handle

A handle is tested for the array mark as it stands, while the path in the output is what is left of
it after cleaning.  Cleaning only drops: every piece of a clean path stands in the handle without a
gap (`Handle.infix_of_mem_split`), and so does the array mark, which cannot reach across a dot
(`Handle.isArrayPath_of_isArrayPath_cleanPath`).

What is dropped is what the strict reading passes over as well.  Hence the two agree on every handle
that can be read strictly (`Handle.cleanPath_of_parse?`): the path is that of its segments.
-/

set_option autoImplicit false

namespace MappingGraph

/-- The array mark is taken off a segment and put back. -/
theorem Segment.text_ofChars (cs : List Char) : (ofChars cs).text = String.ofList cs := by
  unfold ofChars
  split
  · next rest h =>
    have hcs : cs = rest.reverse ++ ['[', ']'] := by
      rw [← List.reverse_reverse cs, h, List.reverse_cons, List.reverse_cons, List.append_assoc,
        List.cons_append, List.nil_append]
    rw [text, if_pos rfl, hcs, String.ofList_append]
  · rfl

namespace Handle

variable {piece cs : List Char}

/-- The first piece begins where the list begins, and the others stand somewhere in it. -/
theorem splitFrom_eq_cons (depth : Nat) (cs : List Char) :
    ∃ first rest, splitFrom depth cs = first :: rest ∧ first <+: cs ∧ ∀ p ∈ rest, p <:+: cs := by
  induction cs generalizing depth with
  | nil => exact ⟨[], [], rfl, List.prefix_rfl, fun _ h ↦ absurd h List.not_mem_nil⟩
  | cons c cs ih =>
    rw [splitFrom]
    split
    · obtain ⟨first, rest, hsplit, hfirst, hrest⟩ := ih 0
      refine ⟨[], first :: rest, by rw [hsplit], List.nil_prefix, fun p hp ↦ ?_⟩
      rcases List.mem_cons.mp hp with rfl | hp
      · exact hfirst.isInfix.trans (List.suffix_cons c cs).isInfix
      · exact (hrest p hp).trans (List.suffix_cons c cs).isInfix
    · obtain ⟨first, rest, hsplit, hfirst, hrest⟩ := ih (depthAfter depth c)
      refine ⟨c :: first, rest, by rw [hsplit, consPiece], ?_, fun p hp ↦ ?_⟩
      · exact List.cons_prefix_cons.mpr ⟨rfl, hfirst⟩
      · exact (hrest p hp).trans (List.suffix_cons c cs).isInfix

theorem infix_of_mem_split (h : piece ∈ split cs) : piece <:+: cs := by
  obtain ⟨first, rest, hsplit, hfirst, hrest⟩ := splitFrom_eq_cons 0 cs
  rw [split, hsplit] at h
  rcases List.mem_cons.mp h with rfl | h
  · exact hfirst.isInfix
  · exact hrest piece h

theorem afterRoot_suffix (cs : List Char) : afterRoot cs <:+ cs := by
  unfold afterRoot
  split
  · exact ⟨['$', '.'], rfl⟩
  · exact ⟨['$'], rfl⟩
  · exact List.suffix_rfl

theorem isArrayPath_iff {path : String} :
    isArrayPath path = true ↔ ['[', ']'] <:+: path.toList :=
  Text.occurs_iff

/-- **A clean path goes through an array only if its handle does.** -/
theorem isArrayPath_of_isArrayPath_cleanPath {handle : String}
    (h : isArrayPath (cleanPath handle) = true) : isArrayPath handle = true := by
  rw [isArrayPath_iff, cleanPath, String.toList_intercalate, List.map_map] at h
  obtain ⟨_, hpart, h⟩ := Text.exists_of_infix_intercalate (by decide) (by decide) h
  obtain ⟨piece, hpiece, rfl⟩ := List.mem_map.mp hpart
  rw [Function.comp_apply, String.toList_ofList] at h
  have hsplit := infix_of_mem_split (List.mem_filter.mp hpiece).1
  refine isArrayPath_iff.mpr (h.trans (hsplit.trans ?_))
  exact (afterRoot_suffix _).isInfix.trans (Text.trimChars_infix _)

/-! ## What both readings see -/

/-- The path that segments make up. -/
def pathOf (segments : List Segment) : String :=
  String.intercalate "." (segments.map Segment.text)

variable {segments : List Segment}

/-- The pieces that make up segments are those that cleaning leaves. -/
theorem map_text_of_segments? {pieces : List (List Char)} (h : segments? pieces = some segments) :
    segments.map Segment.text =
      (pieces.filter fun piece ↦ !piece.isEmpty && !isBranchLabel piece).map String.ofList := by
  induction pieces generalizing segments with
  | nil =>
    cases h
    rfl
  | cons piece pieces ih =>
    rw [segments?] at h
    split at h
    · next hlabel => rw [List.filter_cons_of_neg (by simp [hlabel]), ih h]
    · next hlabel =>
      dsimp only at h
      split at h
      · cases h
      · next hname =>
        obtain ⟨rest, hrest, rfl⟩ := Option.map_eq_some_iff.mp h
        have hpiece : piece ≠ [] := fun hnil ↦ hname (hnil ▸ rfl)
        rw [List.filter_cons_of_pos (by simp [hpiece, hlabel]), List.map_cons, List.map_cons,
          Segment.text_ofChars, ih hrest]

/-- **The two readings agree** on a handle that can be read strictly. -/
theorem cleanPath_of_parse? {handle : String} (h : parse? handle = some segments) :
    cleanPath handle = pathOf segments := by
  rw [parse?] at h
  rw [cleanPath, pathOf]
  split at h
  · next hroot =>
    cases h
    rw [hroot]
    rfl
  · next rest hrest => rw [hrest, map_text_of_segments? h, afterRoot]
  · cases h

/-- **The two readings agree.**  Where the strict reading finds segments, the clean path is made up
of them, and the array mark is in a clean path only if it is in the handle. -/
theorem readings_agree (handle : String) :
    (∀ segments, parse? handle = some segments → cleanPath handle = pathOf segments) ∧
      (['[', ']'] <:+: (cleanPath handle).toList → ['[', ']'] <:+: handle.toList) :=
  ⟨fun _ ↦ cleanPath_of_parse?, fun h ↦
    isArrayPath_iff.mp (isArrayPath_of_isArrayPath_cleanPath (isArrayPath_iff.mpr h))⟩

end Handle

end MappingGraph
