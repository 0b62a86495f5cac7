import MappingGraph.Proofs.Json.Ensures
import MappingGraph.Proofs.Json.Fraction
import MappingGraph.Proofs.Json.Reads

/-!
# The numbers of what was read

Numbers read from a text are representable: integers of 64 bits or binary64 numbers in normal form
(`Draft.representable_ofText`).  So a value that was read from a text at some place fits there
(`Json.Fits`): it is nested no more deeply than there is room, and its numbers are representable.
-/

set_option autoImplicit false

namespace MappingGraph

/-! ## Values -/

namespace Json

variable {P Q : Number → Prop} {v : Json} {n : Nat}

/-- All numbers in the value have the property. -/
inductive AllNumbers (P : Number → Prop) : Json → Prop
  | null : AllNumbers P .null
  | bool (b : Bool) : AllNumbers P (.bool b)
  | number {n : Number} (h : P n) : AllNumbers P (.number n)
  | string (s : String) : AllNumbers P (.string s)
  | array {xs : List Json} (h : ∀ x ∈ xs, AllNumbers P x) : AllNumbers P (.array xs)
  | object {ms : Members} (h : ∀ m ∈ ms, AllNumbers P m.2) : AllNumbers P (.object ms)

theorem AllNumbers.imp (hPQ : ∀ n, P n → Q n) (h : v.AllNumbers P) : v.AllNumbers Q := by
  induction h with
  | null => exact .null
  | bool b => exact .bool b
  | number h => exact .number (hPQ _ h)
  | string s => exact .string s
  | array _ ih => exact .array ih
  | object _ ih => exact .object ih

theorem allNumbers_and_iff :
    (v.AllNumbers fun n ↦ P n ∧ Q n) ↔ v.AllNumbers P ∧ v.AllNumbers Q := by
  constructor
  · intro h
    exact ⟨h.imp fun _ ↦ And.left, h.imp fun _ ↦ And.right⟩
  · rintro ⟨hP, hQ⟩
    induction hP with
    | null => exact .null
    | bool b => exact .bool b
    | string s => exact .string s
    | number h => cases hQ with | number hQ => exact .number ⟨h, hQ⟩
    | array _ ih => cases hQ with | array hQ => exact .array fun x hx ↦ ih x hx (hQ x hx)
    | object _ ih => cases hQ with | object hQ => exact .object fun m hm ↦ ih m hm (hQ m hm)

/-- All numbers in the value are representable. -/
abbrev Representable (v : Json) : Prop := v.AllNumbers Number.Representable

/-- The value may stand where a text has so much room: it is nested no more deeply, and its numbers
are representable. -/
structure Fits (room : Nat) (v : Json) : Prop where
  depth_le : v.depth ≤ room
  representable : v.Representable

theorem fits_array_iff {xs : List Json} : (array xs).Fits (n + 1) ↔ ∀ x ∈ xs, x.Fits n := by
  constructor
  · rintro ⟨hdepth, h⟩ x hx
    cases h with
    | array h => exact ⟨depth_array_le_iff.mp hdepth x hx, h x hx⟩
  · intro h
    exact ⟨depth_array_le_iff.mpr fun x hx ↦ (h x hx).depth_le,
      .array fun x hx ↦ (h x hx).representable⟩

theorem fits_object_iff {ms : Members} : (object ms).Fits (n + 1) ↔ ∀ m ∈ ms, m.2.Fits n := by
  constructor
  · rintro ⟨hdepth, h⟩ m hm
    cases h with
    | object h => exact ⟨depth_object_le_iff.mp hdepth m hm, h m hm⟩
  · intro h
    exact ⟨depth_object_le_iff.mpr fun m hm ↦ (h m hm).depth_le,
      .object fun m hm ↦ (h m hm).representable⟩

@[simp] theorem fits_null (n : Nat) : Json.null.Fits n := ⟨Nat.zero_le n, .null⟩

@[simp] theorem fits_string (n : Nat) (s : String) : (Json.string s).Fits n :=
  ⟨Nat.zero_le n, .string s⟩

end Json

/-! ## Drafts -/

namespace Draft

/-- All numbers in the draft have the property. -/
inductive AllNumbers (P : Number → Prop) : Draft → Prop
  | null : AllNumbers P .null
  | bool (b : Bool) : AllNumbers P (.bool b)
  | number {n : Number} (h : P n) : AllNumbers P (.number n)
  | string (s : String) : AllNumbers P (.string s)
  | array {xs : List Draft} {ending : Ending} (h : ∀ x ∈ xs, AllNumbers P x) :
    AllNumbers P (.array xs ending)
  | object {ms : List (DraftKey × Draft)} {ending : Ending} (h : ∀ m ∈ ms, AllNumbers P m.2) :
    AllNumbers P (.object ms ending)
  | badString (flaw : Flaw) : AllNumbers P (.badString flaw)
  | badToken (flaw : Flaw) : AllNumbers P (.badToken flaw)
  | missing (fault : SyntaxFault) : AllNumbers P (.missing fault)

/-- All numbers in the draft are representable. -/
abbrev Representable (d : Draft) : Prop := d.AllNumbers Number.Representable

variable {cs whole frac : List Char} {negative : Bool} {exp : Option Int}

theorem representable_fractional? {x : Binary64} {e : Int} (h : fractional? whole frac e = some x) :
    x.Representable := by
  rw [fractional?] at h
  dsimp only at h
  split_ifs at h
  · exact Binary64.representable_of_scaled? h
  · cases h
    exact Binary64.representable_zero false

theorem representable_numberOf (negative : Bool) (whole frac : List Char) (exp : Option Int) :
    (numberOf negative whole frac exp).Representable := by
  rw [numberOf]
  generalize (if negative then -(Text.digitsValue (whole ++ frac) : Int) else _) = i
  split
  · next h =>
    simp only [Bool.and_eq_true, decide_eq_true_eq] at h
    exact .number ⟨h.1.2, h.2⟩
  · split
    · next x hx =>
      have hrepresentable := representable_fractional? hx
      exact .number ⟨hrepresentable.1, hrepresentable.2, hrepresentable.3, hrepresentable.4⟩
    · exact .badToken _

theorem representable_readExponent (negative : Bool) (whole frac cs : List Char) :
    (readExponent negative whole frac cs).1.Representable := by
  cases cs with
  | nil => exact representable_numberOf _ _ _ _
  | cons c cs =>
    cases hc : (c = 'e' || c = 'E' : Bool) with
    | true =>
      rw [readExponent_of_e hc]
      dsimp only
      split
      · exact .badToken _
      · exact representable_numberOf _ _ _ _
    | false =>
      rw [readExponent_of_ne hc]
      exact representable_numberOf _ _ _ _

theorem representable_readFraction (negative : Bool) (whole cs : List Char) :
    (readFraction negative whole cs).1.Representable := by
  rw [readFraction.eq_def]
  split
  · dsimp only
    split
    · exact .badToken _
    · exact representable_readExponent _ _ _ _
  · exact representable_readExponent _ _ _ _

theorem representable_readNumber (negative : Bool) (cs : List Char) :
    (readNumber negative cs).1.Representable := by
  rw [readNumber]
  split
  · exact .badToken _
  · exact .badToken _
  · exact representable_readFraction _ _ _

theorem representable_ofStringToken (t : StringToken) : (ofStringToken t).1.Representable := by
  cases t with
  | complete => exact .string _
  | flawed => exact .badString _

theorem representable_readLiteral {d : Draft} (h : d.Representable) (word cs : List Char) :
    (readLiteral d word cs).1.Representable := by
  fun_induction readLiteral d word cs with
  | case1 => exact h
  | case2 => exact .badToken _
  | case3 _ _ _ ih => exact ih
  | case4 => exact .badToken _

/-- What is read within a budget has representable numbers only. -/
structure ReadsNumbers (budget : Nat) : Prop where
  value : ∀ cs, (readValue budget cs).1.Representable
  items : ∀ first cs, ∀ x ∈ (readItems budget first cs).1, x.Representable
  item : ∀ cs, ∀ x ∈ (readItem budget cs).1, x.Representable
  members : ∀ first cs, ∀ m ∈ (readMembers budget first cs).1, m.2.Representable
  member : ∀ cs, ∀ m ∈ (readMember budget cs).1, m.2.Representable

theorem readsNumbers (budget : Nat) : ReadsNumbers budget := by
  induction budget with
  | zero =>
    exact ⟨fun _ ↦ .missing _, fun _ _ ↦ List.forall_mem_nil _, fun _ ↦ List.forall_mem_nil _,
      fun _ _ ↦ List.forall_mem_nil _, fun _ ↦ List.forall_mem_nil _⟩
  | succ budget ih =>
    refine ⟨fun cs ↦ ?_, fun first cs ↦ ?_, fun cs ↦ ?_, fun first cs ↦ ?_, fun cs ↦ ?_⟩
    · rw [readValue]
      split
      · exact .missing _
      · split_ifs
        · exact representable_ofStringToken _
        · exact .array (ih.items _ _)
        · exact .object (ih.members _ _)
        · exact representable_readNumber _ _
        · exact representable_readNumber _ _
        · exact representable_readLiteral .null _ _
        · exact representable_readLiteral (.bool _) _ _
        · exact representable_readLiteral (.bool _) _ _
        · exact .missing _
    · rw [readItems]
      split
      · exact List.forall_mem_nil _
      · exact List.forall_mem_nil _
      · split_ifs
        · exact ih.item _
        · split
          · exact List.forall_mem_nil _
          · exact List.forall_mem_nil _
          · exact ih.item _
        · exact List.forall_mem_nil _
    · rw [readItem]
      dsimp only
      split
      · exact List.forall_mem_singleton.mpr (ih.value cs)
      · exact List.forall_mem_cons.mpr ⟨ih.value cs, ih.items _ _⟩
    · rw [readMembers]
      split
      · exact List.forall_mem_nil _
      · split_ifs
        · exact List.forall_mem_nil _
        · exact ih.member _
        · split
          · exact List.forall_mem_nil _
          · split
            · exact List.forall_mem_nil _
            · exact ih.member _
        · exact List.forall_mem_nil _
    · by_cases hquote : ∃ ds, cs = '"' :: ds
      · obtain ⟨ds, rfl⟩ := hquote
        have hmember {key : DraftKey} {value : Draft} (rest : List Char)
            (hvalue : value.Representable) : ∀ m ∈ (if value.isLast = true then
                (([(key, value)], .cut, rest) : List (DraftKey × Draft) × Ending × List Char)
              else
                ((key, value) :: (readMembers budget false rest).1,
                  (readMembers budget false rest).2.1, (readMembers budget false rest).2.2)).1,
              m.2.Representable := by
          split
          · exact List.forall_mem_singleton.mpr hvalue
          · exact List.forall_mem_cons.mpr ⟨hvalue, ih.members _ _⟩
        rw [readMember]
        dsimp only
        split
        · exact hmember _ (ih.value _)
        · exact hmember _ (.missing _)
        · exact hmember _ (.missing _)
      · rw [readMember.eq_3 _ _ fun ds hds ↦ hquote ⟨ds, hds⟩]
        exact List.forall_mem_singleton.mpr (ih.value cs)

/-- **All numbers read from a text are representable.** -/
theorem representable_ofText (text : String) : (ofText text).1.Representable := by
  have hvalue := (readsNumbers (4 * text.toList.length + 4)).value text.toList
  cases hread : readValue (4 * text.toList.length + 4) text.toList with
  | mk d left => rwa [ofText_eq hread, ← congrArg Prod.fst hread]

theorem hereditary_representable : Hereditary Representable where
  items h := by cases h with | array h => exact h
  members h := by cases h with | object h => exact h

/-- **A value read from a text fits there.** -/
theorem fits_of_value? {d : Draft} (hd : d.Representable) {room : Nat} {v : Json}
    (h : d.value? (.text room) = .ok v) : v.Fits room := by
  induction hd generalizing room v with
  | null =>
    cases h
    exact Json.fits_null room
  | bool b =>
    cases h
    exact ⟨Nat.zero_le room, .bool b⟩
  | number hn =>
    cases h
    exact ⟨Nat.zero_le room, .number hn⟩
  | string s =>
    cases h
    exact Json.fits_string room s
  | badString | badToken | missing => cases h
  | array _ ih =>
    obtain ⟨inside, vs, hinside, rfl, hvs⟩ := exists_of_value?_array h
    obtain ⟨room, rfl, rfl⟩ := Standing.exists_of_enter_text hinside
    refine Json.fits_array_iff.mpr fun w hw ↦ ?_
    obtain ⟨x, hx, hval⟩ := hvs w hw
    exact ih x hx hval
  | object _ ih =>
    obtain ⟨inside, vs, hinside, rfl, hvs⟩ := exists_of_value?_object h
    obtain ⟨room, rfl, rfl⟩ := Standing.exists_of_enter_text hinside
    refine Json.fits_object_iff.mpr fun w hw ↦ ?_
    obtain ⟨m, hm, hval⟩ := hvs w hw
    exact ih m hm hval

end Draft

theorem Decoder.ensuresAt_json (room : Nat) :
    json.EnsuresAt Draft.Representable (.text room) (Json.Fits room) :=
  fun _ _ hd h ↦ Draft.fits_of_value? hd (eq_ok_of_syntactic h)

end MappingGraph
