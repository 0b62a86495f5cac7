import Mathlib.Data.List.Infix
import MappingGraph.Text.Search

/-!
# Occurrences of a piece of text

`Text.occurs` scans from the left; what it finds is that the piece is an infix of the list.  Of a
text put together with separators, a piece without the separator lies in one of the parts.
-/

set_option autoImplicit false

namespace MappingGraph.Text

variable {piece cs : List Char}

theorem occurs_iff : occurs piece cs = true ↔ piece <:+: cs := by
  induction cs with
  | nil => rw [occurs, List.isEmpty_iff, List.infix_nil]
  | cons c cs ih =>
    rw [occurs, Bool.or_eq_true, List.isPrefixOf_iff_prefix, ih, List.infix_cons_iff]

/-- A piece without the separator does not reach across it. -/
theorem infix_of_infix_append_cons {left right : List Char} {sep : Char} (hsep : sep ∉ piece)
    (h : piece <:+: left ++ sep :: right) : piece <:+: left ∨ piece <:+: right := by
  rcases List.infix_append_iff.mp h with h | h | ⟨front, back, rfl, hfront, hback⟩
  · exact .inl h
  · rcases List.infix_cons_iff.mp h with h | h
    · cases piece with
      | nil => exact .inl List.nil_infix
      | cons c cs =>
        have hc : c = sep := (List.cons_prefix_cons.mp h).1
        exact absurd (hc ▸ List.mem_cons_self) hsep
    · exact .inr h
  · cases back with
    | nil => exact .inl (by simpa using hfront.isInfix)
    | cons c cs =>
      have hc : c = sep := (List.cons_prefix_cons.mp hback).1
      exact absurd (hc ▸ List.mem_append_right _ List.mem_cons_self) hsep

/-- A piece in a text put together with separators lies in one of the parts. -/
theorem exists_of_infix_intercalate {sep : Char} {parts : List (List Char)} (hsep : sep ∉ piece)
    (hne : piece ≠ []) (h : piece <:+: List.intercalate [sep] parts) :
    ∃ part ∈ parts, piece <:+: part := by
  induction parts with
  | nil => exact absurd (List.infix_nil.mp h) hne
  | cons part parts ih =>
    cases parts with
    | nil => exact ⟨part, List.mem_cons_self, by simpa using h⟩
    | cons next parts =>
      rw [List.intercalate_cons_cons, List.append_assoc, List.singleton_append] at h
      rcases infix_of_infix_append_cons hsep h with h | h
      · exact ⟨part, List.mem_cons_self, h⟩
      · obtain ⟨p, hp, h⟩ := ih h
        exact ⟨p, List.mem_cons_of_mem _ hp, h⟩

/-- A part of a text put together with separators stands in it. -/
theorem infix_intercalate {sep : List Char} {parts : List (List Char)} (h : piece ∈ parts) :
    piece <:+: List.intercalate sep parts := by
  induction parts with
  | nil => exact absurd h List.not_mem_nil
  | cons part parts ih =>
    cases parts with
    | nil => rw [List.mem_singleton.mp h, List.intercalate_singleton]
    | cons next parts =>
      rw [List.intercalate_cons_cons]
      rcases List.mem_cons.mp h with rfl | h
      · exact ((List.prefix_append _ _).trans (List.prefix_append _ _)).isInfix
      · exact (ih h).trans (List.suffix_append _ _).isInfix

end MappingGraph.Text
