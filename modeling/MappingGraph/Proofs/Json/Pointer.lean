import Mathlib.Data.List.Basic
import MappingGraph.Json.Pointer
import MappingGraph.Proofs.Text.Numeral

/-!
# Looking up what a pointer was made for

A pointer that was extended by a key or by a position leads one step further (`Json.at?_child`,
`Json.at?_item`): a token is read back as it was before it was written, and so is the number of an
item.

A pointer is kept as its tokens but handed on as a text.  The text says the same
(`Pointer.ofText?_text`), provided that no token has a `/` of its own, which is so for all pointers
that were read from a text or made by going down.
-/

set_option autoImplicit false

namespace MappingGraph

namespace Pointer

/-! ## Tokens -/

theorem unescape_cons {c : Char} (h : c ≠ '~') (cs : List Char) :
    unescape (c :: cs) = c :: unescape cs := by
  rw [unescape.eq_3]
  · rintro _ rfl
    exact absurd rfl h
  · rintro _ rfl
    exact absurd rfl h

/-- **A token is read back** as it was before it was written. -/
theorem unescape_escape (cs : List Char) : unescape (escape cs) = cs := by
  induction cs with
  | nil => rfl
  | cons c cs ih =>
    rw [escape] at ih
    rw [escape, List.flatMap_cons]
    split_ifs with htilde hslash
    · rw [List.cons_append, List.singleton_append, unescape, ih, htilde]
    · rw [List.cons_append, List.singleton_append, unescape, ih, hslash]
    · rw [List.singleton_append, unescape_cons htilde, ih]

theorem tokens_child (p : Pointer) (token : String) :
    (p.child token).tokens = p.tokens ++ [token] := by
  rw [tokens, child, List.map_append, List.map_singleton, String.toList_ofList, unescape_escape,
    String.ofList_toList]
  rfl

/-- The position of an item is read from its number. -/
theorem index?_natText (i : Nat) : index? (Text.natText i) = some i := by
  have hread : Text.digits? (Text.natText i).toList = some i := by
    rw [Text.natText, String.toList_ofList]
    exact Text.digits?_natDigits i
  rw [index?]
  split
  · next h =>
    rw [h] at hread
    exact hread
  · next cs hne h =>
    rw [Text.natText, String.toList_ofList] at h
    exact absurd (Text.eq_nil_of_natDigits_eq h) hne
  · exact hread

/-- A position has one token. -/
theorem natText_of_index? {t : String} {i : Nat} (h : index? t = some i) : Text.natText i = t := by
  rw [index?] at h
  split at h
  · next ht =>
    rw [← Option.some.inj h, ← String.toList_inj, ht]
    rfl
  · cases h
  · next hone hmany =>
    rw [Text.natText, ← String.toList_inj, String.toList_ofList]
    exact Text.natDigits_of_digits? h fun ds hds ↦ absurd hds (hmany ds)

/-! ## Text -/

variable {p : Pointer} {s : String} {cs piece : List Char}

/-- No token has a `/` that is not escaped. -/
def Plain (p : Pointer) : Prop := ∀ t ∈ p.written, '/' ∉ t.toList

theorem plain_root : root.Plain := fun _ h ↦ absurd h List.not_mem_nil

theorem slash_not_mem_escape (cs : List Char) : '/' ∉ escape cs := by
  rw [escape, List.mem_flatMap]
  rintro ⟨c, _, h⟩
  split_ifs at h with htilde hslash
  · simp at h
  · simp at h
  · exact hslash (List.mem_singleton.mp h).symm

theorem Plain.child (h : p.Plain) (token : String) : (p.child token).Plain := by
  intro t ht
  rcases List.mem_append.mp ht with ht | ht
  · exact h t ht
  · rw [List.mem_singleton.mp ht, String.toList_ofList]
    exact slash_not_mem_escape _

theorem slash_not_mem_of_mem_splitSlash (h : piece ∈ splitSlash cs) : '/' ∉ piece := by
  induction cs generalizing piece with
  | nil =>
    rw [List.mem_singleton.mp h]
    exact List.not_mem_nil
  | cons c cs ih =>
    rw [splitSlash] at h
    split_ifs at h with hslash
    · rcases List.mem_cons.mp h with rfl | h
      · exact List.not_mem_nil
      · exact ih h
    · split at h
      · rw [List.mem_singleton.mp h, List.mem_singleton]
        exact Ne.symm hslash
      · next first rest hsplit =>
        rw [hsplit] at ih
        rcases List.mem_cons.mp h with rfl | h
        · rw [List.mem_cons, not_or]
          exact ⟨Ne.symm hslash, ih List.mem_cons_self⟩
        · exact ih (List.mem_cons_of_mem _ h)

theorem plain_of_ofText? (h : ofText? s = some p) : p.Plain := by
  rw [ofText?] at h
  split at h
  · rw [← Option.some.inj h]
    exact plain_root
  · rw [← Option.some.inj h]
    intro t ht
    obtain ⟨piece, hpiece, rfl⟩ := List.mem_map.mp ht
    rw [String.toList_ofList]
    exact slash_not_mem_of_mem_splitSlash hpiece
  · cases h

theorem splitSlash_of_not_mem (h : '/' ∉ cs) : splitSlash cs = [cs] := by
  induction cs with
  | nil => rfl
  | cons c cs ih =>
    rw [List.mem_cons, not_or] at h
    rw [splitSlash, if_neg (Ne.symm h.1), ih h.2]

theorem splitSlash_append (h : '/' ∉ cs) (ds : List Char) :
    splitSlash (cs ++ '/' :: ds) = cs :: splitSlash ds := by
  induction cs with
  | nil => rfl
  | cons c cs ih =>
    rw [List.mem_cons, not_or] at h
    rw [List.cons_append, splitSlash, if_neg (Ne.symm h.1), ih h.2]

theorem splitSlash_flatMap {t : String} {ts : List String} (h : ∀ u ∈ t :: ts, '/' ∉ u.toList) :
    splitSlash (t.toList ++ ts.flatMap fun u ↦ '/' :: u.toList) = (t :: ts).map String.toList := by
  induction ts generalizing t with
  | nil =>
    rw [List.flatMap_nil, List.append_nil, splitSlash_of_not_mem (h t List.mem_cons_self)]
    rfl
  | cons u ts ih =>
    rw [List.flatMap_cons, List.cons_append, splitSlash_append (h t List.mem_cons_self),
      ih fun w hw ↦ h w (List.mem_cons_of_mem t hw)]
    rfl

/-- **The text of a pointer is read as that pointer.** -/
theorem ofText?_text (h : p.Plain) : ofText? p.text = some p := by
  obtain ⟨written⟩ := p
  cases written with
  | nil => rfl
  | cons t ts =>
    rw [ofText?, text, String.toList_ofList, List.flatMap_cons, List.cons_append]
    change some (⟨(splitSlash _).map String.ofList⟩ : Pointer) = some ⟨t :: ts⟩
    rw [splitSlash_flatMap h, List.map_map]
    simp

end Pointer

/-- A member that is found is there. -/
theorem Members.mem_of_find? {ms : Members} {k : String} {x : Json}
    (h : Members.find? k ms = some x) : (k, x) ∈ ms := by
  induction ms with
  | nil => cases h
  | cons m ms ih =>
    rw [Members.find?] at h
    split at h
    · next heq => exact List.mem_cons.mpr (.inl (by rw [← heq, ← Option.some.inj h]))
    · exact List.mem_cons_of_mem _ (ih h)

namespace Json

variable {v w : Json} {p : Pointer}

theorem follow?_append (ts us : List String) (v : Json) :
    v.follow? (ts ++ us) = (v.follow? ts).bind (follow? us) := by
  induction ts generalizing v with
  | nil => rfl
  | cons t ts ih =>
    rw [List.cons_append, follow?, follow?, Option.bind_assoc]
    exact congrArg _ (funext fun w ↦ ih w)

theorem at?_root (v : Json) : v.at? .root = some v := rfl

/-- **A pointer one step further down.** -/
theorem at?_child (h : v.at? p = some w) (token : String) : v.at? (p.child token) = w.step? token := by
  rw [at?] at h
  rw [at?, Pointer.tokens_child, follow?_append, h, Option.bind_some, follow?]
  cases w.step? token <;> rfl

/-- A member is reached in one step. -/
theorem step?_of_get? {key : String} (h : v.get? key = some w) : v.step? key = some w := by
  cases v with
  | object ms => exact h
  | _ => cases h

theorem at?_item {xs : List Json} (h : v.at? p = some (.array xs)) (i : Nat) :
    v.at? (p.item i) = xs[i]? := by
  rw [Pointer.item, at?_child h, step?, Pointer.index?_natText, Option.bind_some]

end Json

end MappingGraph
