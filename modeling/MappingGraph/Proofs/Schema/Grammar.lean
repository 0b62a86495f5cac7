import MappingGraph.Proofs.Schema.Handle
import MappingGraph.Schema.Locate

/-!
# The grammar of handles

A handle is put together from elements: steps into the schema, and branch labels that an editor puts
between them.  `Handle.ofElements` writes it down, and `Handle.ofElements_readsBack` says that both
readings give the steps back and pass over the labels, so that labels never matter to what is looked
up.

What has to be shown is that the text falls apart where it was put together.  A dot inside of
brackets is no place to cut, so this is not a matter of the characters alone: `Handle.Passes` says
how a stretch of text takes the splitter from one depth of brackets to another without a cut, and the
text of every element takes it from the outside to the outside.
-/

set_option autoImplicit false

namespace MappingGraph

namespace Text

/-- A text put together with separators ends as its last part does. -/
theorem getLast?_intercalate (sep : List Char) {piece : List Char} (h : piece ≠ [])
    (front : List (List Char)) :
    (List.intercalate sep (front ++ [piece])).getLast? = piece.getLast? := by
  induction front with
  | nil => rw [List.nil_append, List.intercalate_singleton]
  | cons first front ih =>
    have hcons : List.intercalate sep (first :: (front ++ [piece])) =
        first ++ sep ++ List.intercalate sep (front ++ [piece]) := by
      cases front <;> exact List.intercalate_cons_cons
    rw [List.cons_append, hcons, List.getLast?_append, ih, List.getLast?_eq_some_getLast h,
      Option.some_or]

end Text

namespace Handle

variable {cs ds piece : List Char} {pieces : List (List Char)} {c : Char}
  {depth inner after : Nat}

/-! ## Where a text is cut -/

/-- The text takes the splitter from the one depth of brackets to the other and is not cut. -/
def Passes (depth : Nat) (cs : List Char) (after : Nat) : Prop :=
  ∀ rest, splitFrom depth (cs ++ rest) = cs.foldr consPiece (splitFrom after rest)

theorem passes_nil : Passes depth [] depth := fun _ ↦ rfl

theorem Passes.append (hcs : Passes depth cs inner) (hds : Passes inner ds after) :
    Passes depth (cs ++ ds) after := fun rest ↦ by
  rw [List.append_assoc, hcs, hds, List.foldr_append]

theorem passes_singleton (h : ¬ (c = '.' ∧ depth = 0)) : Passes depth [c] (depthAfter depth c) :=
  fun rest ↦ by
    rw [List.singleton_append, splitFrom, if_neg h]
    rfl

/-- Where there are no brackets the depth stays, and inside of brackets a dot does no harm. -/
theorem passes_of_forall (h : ∀ c ∈ cs, isBracket c = false ∧ (depth = 0 → c ≠ '.')) :
    Passes depth cs depth := by
  induction cs with
  | nil => exact passes_nil
  | cons c cs ih =>
    obtain ⟨hbracket, hdot⟩ := h c List.mem_cons_self
    have hdepth : depthAfter depth c = depth := by
      simp only [isBracket, Bool.or_eq_false_iff, decide_eq_false_iff_not] at hbracket
      rw [depthAfter, if_neg hbracket.1, if_neg hbracket.2]
    have hc : Passes depth [c] (depthAfter depth c) :=
      passes_singleton fun hcut ↦ hdot hcut.2 hcut.1
    rw [hdepth] at hc
    exact hc.append (ih fun d hd ↦ h d (List.mem_cons_of_mem c hd))

theorem foldr_consPiece (cs piece : List Char) (pieces : List (List Char)) :
    cs.foldr consPiece (piece :: pieces) = (cs ++ piece) :: pieces := by
  induction cs with
  | nil => rfl
  | cons c cs ih => rw [List.foldr_cons, ih, consPiece, List.cons_append]

/-- **Splitting undoes joining** for pieces that are not cut themselves. -/
theorem split_intercalate (hne : pieces ≠ []) (h : ∀ p ∈ pieces, Passes 0 p 0) :
    split (List.intercalate ['.'] pieces) = pieces := by
  induction pieces with
  | nil => exact absurd rfl hne
  | cons piece pieces ih =>
    have hpiece := h piece List.mem_cons_self
    cases pieces with
    | nil =>
      have hend := hpiece []
      rw [List.append_nil, splitFrom, foldr_consPiece, List.append_nil] at hend
      rw [List.intercalate_singleton]
      exact hend
    | cons next pieces =>
      have hrest := ih (List.cons_ne_nil _ _) fun p hp ↦ h p (List.mem_cons_of_mem _ hp)
      rw [List.intercalate_cons_cons, List.append_assoc, List.singleton_append, split, hpiece,
        splitFrom, if_pos ⟨rfl, rfl⟩, ← split, hrest, foldr_consPiece, List.append_nil]

/-! ## Elements -/

/-- A part of a handle: a step into the schema, or a branch label `[key=value]text`. -/
inductive Element where
  | step (segment : Segment)
  | label (key value text : String)
deriving DecidableEq, Repr

/-- A text with neither dots nor brackets in it. -/
def Plain (s : String) : Prop := ∀ c ∈ s.toList, isBracket c = false ∧ c ≠ '.'

instance (s : String) : Decidable (Plain s) :=
  List.decidableBAll (fun c ↦ isBracket c = false ∧ c ≠ '.') s.toList

namespace Element

/-- The element as it is written. -/
def text : Element → String
  | step segment => segment.text
  | label key value text => "[" ++ key ++ "=" ++ value ++ "]" ++ text

@[inherit_doc text]
def chars (e : Element) : List Char := e.text.toList

/-- The step that the element stands for; a label stands for none. -/
def segment? : Element → Option Segment
  | step segment => some segment
  | label .. => none

/-- What an element may be made of.  Inside of its brackets a label may have dots. -/
def WellFormed : Element → Prop
  | step segment => segment.name ≠ "" ∧ Plain segment.name
  | label key value text =>
    key ≠ "" ∧ (∀ c ∈ key.toList, isBracket c = false ∧ c ≠ '=') ∧
      (∀ c ∈ value.toList, isBracket c = false) ∧ Plain text

instance : DecidablePred WellFormed
  | step _ => inferInstanceAs (Decidable (_ ∧ _))
  | label key value _ =>
    have := List.decidableBAll (fun c ↦ isBracket c = false ∧ c ≠ '=') key.toList
    have := List.decidableBAll (fun c ↦ isBracket c = false) value.toList
    inferInstanceAs (Decidable (_ ∧ _ ∧ _ ∧ _))

variable {e : Element} {segment : Segment} {key value text : String}

theorem chars_step : (step segment).chars =
    segment.name.toList ++ if segment.array then ['[', ']'] else [] := by
  rw [chars, Element.text, Segment.text]
  split
  · rw [String.toList_append]
    rfl
  · rw [List.append_nil]

theorem chars_label : (label key value text).chars =
    '[' :: (key.toList ++ '=' :: (value.toList ++ ']' :: text.toList)) := by
  simp [chars, Element.text]

theorem passes_chars (h : e.WellFormed) : Passes 0 e.chars 0 := by
  have hopen : Passes 0 ['['] 1 := passes_singleton (by decide)
  have hclose : Passes 1 [']'] 0 := passes_singleton (by decide)
  have hplain : ∀ {s : String}, Plain s → Passes 0 s.toList 0 := fun hs ↦
    passes_of_forall fun c hc ↦ (hs c hc).imp_right fun hdot _ ↦ hdot
  cases e with
  | step segment =>
    rw [chars_step]
    refine (hplain h.2).append ?_
    split
    · exact hopen.append hclose
    · exact passes_nil
  | label key value text =>
    obtain ⟨_, hkey, hvalue, htext⟩ := h
    have hinside : ∀ {cs : List Char}, (∀ c ∈ cs, isBracket c = false) → Passes 1 cs 1 := fun hcs ↦
      passes_of_forall fun c hc ↦ ⟨hcs c hc, fun h ↦ absurd h Nat.one_ne_zero⟩
    have hequals : Passes 1 ['='] 1 := passes_singleton (by decide)
    rw [chars_label]
    exact hopen.append <| (hinside fun c hc ↦ (hkey c hc).1).append <| hequals.append <|
      (hinside hvalue).append <| hclose.append (hplain htext)

/-- A step begins with the first character of its name, which is no bracket. -/
theorem exists_chars_step (h : (step segment).WellFormed) :
    ∃ c cs, (step segment).chars = c :: cs ∧ isBracket c = false := by
  obtain ⟨c, cs, hcs⟩ := List.exists_cons_of_ne_nil fun hnil ↦
    h.1 (String.toList_eq_nil_iff.mp hnil)
  have hc := (h.2 c (hcs ▸ List.mem_cons_self)).1
  rw [chars_step, hcs, List.cons_append]
  exact ⟨c, _, rfl, hc⟩

theorem chars_ne_nil (h : e.WellFormed) : e.chars ≠ [] := by
  cases e with
  | step segment =>
    obtain ⟨c, cs, hcs, _⟩ := exists_chars_step h
    rw [hcs]
    exact List.cons_ne_nil c cs
  | label key value text =>
    rw [chars_label]
    exact List.cons_ne_nil _ _

/-- A step is not taken for a label. -/
theorem isBranchLabel_step (h : (step segment).WellFormed) :
    isBranchLabel (step segment).chars = false := by
  obtain ⟨c, cs, hcs, hc⟩ := exists_chars_step h
  rw [hcs, isBranchLabel.eq_def]
  split
  · next heq =>
    rw [(List.cons.inj heq).1] at hc
    exact absurd hc (by decide)
  · rfl

theorem isBranchLabel_label (h : (label key value text).WellFormed) :
    isBranchLabel (label key value text).chars = true := by
  obtain ⟨hne, hkey, hvalue, _⟩ := h
  have hname : key.toList ≠ [] := fun hnil ↦ hne (String.toList_eq_nil_iff.mp hnil)
  have hkey' : ∀ c ∈ key.toList, (!isBracket c && c != '=') = true := fun c hc ↦ by
    simp [hkey c hc]
  have hvalue' : (value.toList ++ ']' :: text.toList).dropWhile (!isBracket ·) =
      ']' :: text.toList := by
    rw [List.dropWhile_append_of_pos fun c hc ↦ by simp [hvalue c hc],
      List.dropWhile_cons_of_neg (by decide)]
  rw [chars_label, isBranchLabel, List.takeWhile_append_of_pos hkey',
    List.dropWhile_append_of_pos hkey', List.takeWhile_cons_of_neg (by decide),
    List.dropWhile_cons_of_neg (by decide), List.append_nil]
  simp [hname, hvalue']

/-- The array mark is told from the name. -/
theorem ofChars_step (h : (step segment).WellFormed) :
    Segment.ofChars (step segment).chars = segment := by
  obtain ⟨name, array⟩ := segment
  rw [chars_step, Segment.ofChars]
  cases array with
  | true =>
    rw [if_pos rfl, List.reverse_append]
    change (⟨String.ofList name.toList.reverse.reverse, true⟩ : Segment) = _
    rw [List.reverse_reverse, String.ofList_toList]
  | false =>
    rw [if_neg Bool.false_ne_true, List.append_nil]
    split
    · next rest hrev =>
      have hmem : ']' ∈ name.toList := List.mem_reverse.mp (hrev ▸ List.mem_cons_self)
      exact absurd (h.2 ']' hmem).1 (by decide)
    · rw [String.ofList_toList]

/-- The array mark stands in an element exactly if it is that of a step. -/
theorem mark_infix_iff (h : e.WellFormed) :
    ['[', ']'] <:+: e.chars ↔ ∃ s ∈ e.segment?, s.array = true := by
  have hno : ∀ {cs : List Char}, '[' ∉ cs → ¬ ['[', ']'] <:+: cs := fun hcs hmark ↦
    hcs (hmark.subset List.mem_cons_self)
  have hnot : ∀ {cs : List Char}, (∀ c ∈ cs, isBracket c = false) → '[' ∉ cs := fun hcs hmem ↦
    absurd (hcs '[' hmem) (by decide)
  cases e with
  | step segment =>
    rw [chars_step]
    cases harray : segment.array with
    | true =>
      rw [if_pos rfl]
      exact iff_of_true (List.suffix_append _ _).isInfix ⟨segment, rfl, harray⟩
    | false =>
      rw [if_neg Bool.false_ne_true, List.append_nil]
      refine iff_of_false (hno (hnot fun c hc ↦ (h.2 c hc).1)) ?_
      rintro ⟨s, hs, htrue⟩
      cases hs
      exact absurd (harray.symm.trans htrue) Bool.false_ne_true
  | label key value text =>
    obtain ⟨hne, hkey, hvalue, htext⟩ := h
    refine iff_of_false ?_ fun ⟨s, hs, _⟩ ↦ by cases hs
    rw [chars_label, List.infix_cons_iff]
    rintro (hmark | hmark)
    · -- the bracket that opens the label has the key behind it
      obtain ⟨c, cs, hcs⟩ := List.exists_cons_of_ne_nil fun hnil ↦
        hne (String.toList_eq_nil_iff.mp hnil)
      rw [hcs, List.cons_append, List.cons_prefix_cons, List.cons_prefix_cons] at hmark
      exact absurd (hkey c (hcs ▸ List.mem_cons_self)).1 (by rw [← hmark.2.1]; decide)
    · refine hno ?_ hmark
      simp [hnot fun c hc ↦ (hkey c hc).1, hnot hvalue, hnot fun c hc ↦ (htext c hc).1]

end Element

/-! ## Handles made of elements -/

/-- The handle that elements make up: the root, and a dot before each element. -/
def ofElements (elements : List Element) : String :=
  String.intercalate "." ("$" :: elements.map Element.text)

/-- The steps among the elements. -/
def segmentsOf (elements : List Element) : List Segment := elements.filterMap Element.segment?

/-- Elements that can make up a handle.  Blanks at its end would be trimmed. -/
structure Fits (elements : List Element) : Prop where
  wellFormed : ∀ e ∈ elements, e.WellFormed
  trimmed : ∀ e ∈ elements.getLast?, ∀ c ∈ e.text.toList.getLast?, Text.isBlank c = false

variable {elements : List Element} {e : Element}

theorem toList_ofElements (elements : List Element) :
    (ofElements elements).toList =
      List.intercalate ['.'] (['$'] :: elements.map Element.chars) := by
  rw [ofElements, String.toList_intercalate, List.map_cons, List.map_map]
  rfl

theorem trimChars_ofElements (h : Fits elements) :
    Text.trimChars (ofElements elements).toList = (ofElements elements).toList := by
  rw [toList_ofElements]
  refine Text.trimChars_eq_self (fun c hc ↦ ?_) fun c hc ↦ ?_
  · have hroot : c = '$' := by
      cases elements <;> simpa using hc.symm
    rw [hroot]
    rfl
  · rcases List.eq_nil_or_concat elements with rfl | ⟨front, e, rfl⟩
    · have hroot : c = '$' := by simpa using hc.symm
      rw [hroot]
      rfl
    · have he := h.wellFormed e (by simp)
      refine h.trimmed e (by simp) c ?_
      rw [List.map_concat, List.concat_eq_append, ← List.cons_append,
        Text.getLast?_intercalate _ (Element.chars_ne_nil he)] at hc
      exact hc

theorem segments?_chars (h : ∀ e ∈ elements, e.WellFormed) :
    segments? (elements.map Element.chars) = some (segmentsOf elements) := by
  induction elements with
  | nil => rfl
  | cons e elements ih =>
    have he := h e List.mem_cons_self
    have hrest := ih fun e he ↦ h e (List.mem_cons_of_mem _ he)
    rw [List.map_cons, segments?, hrest]
    cases e with
    | step segment =>
      have hname : segment.name.isEmpty = false := by simpa using he.1
      rw [Element.isBranchLabel_step he, if_neg Bool.false_ne_true, Element.ofChars_step he]
      dsimp only
      rw [hname, if_neg Bool.false_ne_true]
      rfl
    | label key value text =>
      rw [Element.isBranchLabel_label he, if_pos rfl]
      rfl

theorem parse?_ofElements (h : Fits elements) :
    parse? (ofElements elements) = some (segmentsOf elements) := by
  rw [parse?, trimChars_ofElements h, toList_ofElements]
  cases elements with
  | nil => rfl
  | cons e elements =>
    have hsplit : split (List.intercalate ['.'] ((e :: elements).map Element.chars)) =
        (e :: elements).map Element.chars :=
      split_intercalate (List.cons_ne_nil _ _) fun p hp ↦ by
        obtain ⟨e, he, rfl⟩ := List.mem_map.mp hp
        exact Element.passes_chars (h.wellFormed e he)
    rw [List.map_cons, List.intercalate_cons_cons]
    change segments? (split (List.intercalate ['.'] ((e :: elements).map Element.chars))) = _
    rw [hsplit, segments?_chars h.wellFormed]

theorem isArrayPath_ofElements_iff (h : ∀ e ∈ elements, e.WellFormed) :
    isArrayPath (ofElements elements) = true ↔ ∃ s ∈ segmentsOf elements, s.array = true := by
  rw [isArrayPath_iff, toList_ofElements]
  constructor
  · intro hmark
    obtain ⟨part, hpart, hmark⟩ := Text.exists_of_infix_intercalate (by decide) (by decide) hmark
    rcases List.mem_cons.mp hpart with rfl | hpart
    · exact absurd (hmark.subset List.mem_cons_self) (by decide)
    · obtain ⟨e, he, rfl⟩ := List.mem_map.mp hpart
      obtain ⟨s, hs, harray⟩ := (Element.mark_infix_iff (h e he)).mp hmark
      exact ⟨s, List.mem_filterMap.mpr ⟨e, he, hs⟩, harray⟩
  · rintro ⟨s, hs, harray⟩
    obtain ⟨e, he, hs⟩ := List.mem_filterMap.mp hs
    have hmark := (Element.mark_infix_iff (h e he)).mpr ⟨s, hs, harray⟩
    exact hmark.trans (Text.infix_intercalate (List.mem_cons_of_mem _ (List.mem_map_of_mem he)))

theorem isArrayPath_cleanPath_ofElements (h : Fits elements) :
    isArrayPath (cleanPath (ofElements elements)) = isArrayPath (ofElements elements) := by
  refine Bool.eq_iff_iff.mpr ⟨isArrayPath_of_isArrayPath_cleanPath, fun harray ↦ ?_⟩
  obtain ⟨s, hs, harray⟩ := (isArrayPath_ofElements_iff h.wellFormed).mp harray
  have hmark : ['[', ']'] <:+: s.text.toList := by
    rw [Segment.text, if_pos harray, String.toList_append]
    exact (List.suffix_append _ _).isInfix
  rw [isArrayPath_iff, cleanPath_of_parse? (parse?_ofElements h), pathOf,
    String.toList_intercalate, List.map_map]
  exact hmark.trans (Text.infix_intercalate (List.mem_map_of_mem hs))

/-- That a handle made of elements is read as the steps among them. -/
structure ReadsBack (elements : List Element) : Prop where
  /-- The steps are what is looked up. -/
  parse : parse? (ofElements elements) = some (segmentsOf elements)
  /-- The steps are what is written into the output. -/
  clean : cleanPath (ofElements elements) = pathOf (segmentsOf elements)
  /-- The handle goes through an array exactly if one of its steps does. -/
  array : isArrayPath (ofElements elements) = true ↔ ∃ s ∈ segmentsOf elements, s.array = true
  /-- Cleaning keeps the array mark. -/
  mark : isArrayPath (cleanPath (ofElements elements)) = isArrayPath (ofElements elements)
  /-- So labels, wherever they are put in or taken out, change nothing. -/
  labels : ∀ others, Fits others → segmentsOf others = segmentsOf elements →
    parse? (ofElements others) = parse? (ofElements elements) ∧
      ∀ schema, Schema.hasHandle (ofElements others) schema =
        Schema.hasHandle (ofElements elements) schema

/-- **Reading a handle gives back what it was made of**, without the labels. -/
theorem ofElements_readsBack (h : Fits elements) : ReadsBack elements where
  parse := parse?_ofElements h
  clean := cleanPath_of_parse? (parse?_ofElements h)
  array := isArrayPath_ofElements_iff h.wellFormed
  mark := isArrayPath_cleanPath_ofElements h
  labels others hothers hsame := by
    have hparse : parse? (ofElements others) = parse? (ofElements elements) := by
      rw [parse?_ofElements hothers, parse?_ofElements h, hsame]
    refine ⟨hparse, fun schema ↦ ?_⟩
    rw [Schema.hasHandle, Schema.hasHandle, hparse]

/-- A label with a dot and an equals sign in its value, and an array behind it. -/
theorem ofElements_readsBack_payments :
    Fits [.step ⟨"payment", false⟩, .label "version" "1.0=a" " Legacy", .step ⟨"lines", true⟩] ∧
      ReadsBack
        [.step ⟨"payment", false⟩, .label "version" "1.0=a" " Legacy", .step ⟨"lines", true⟩] := by
  have hfits : Fits
      [.step ⟨"payment", false⟩, .label "version" "1.0=a" " Legacy", .step ⟨"lines", true⟩] := by
    refine ⟨by decide, fun e he c hc ↦ ?_⟩
    obtain rfl : .step ⟨"lines", true⟩ = e := Option.some.inj he
    obtain rfl : ']' = c := Option.some.inj hc
    rfl
  exact ⟨hfits, ofElements_readsBack hfits⟩

end Handle

end MappingGraph
