import MappingGraph.Json.Printer
import MappingGraph.Proofs.Json.Canonical
import MappingGraph.Proofs.Text.Numeral
import Mathlib.Data.List.TakeWhile
import Mathlib.Tactic.SplitIfs

/-!
# Reading written numbers

The end of a number is told only by what follows it.  `Draft.Takes` says that a reader takes a
number off the front of a text and leaves the rest, whatever comes after, and it is shown for each
function that reads a part of a number.  So a number is read in the middle of a longer text as it is
read alone (`Number.Readable.readValue_append`).

Integers of 64 bits are read back (`Number.readsBack_integer`).  Fractional numbers need not be,
since reading rounds more than once.  `Number.reread` is what comes back of a number, and of numbers
that have to come back as they were it is asked for (`Number.Legible`).
-/

set_option autoImplicit false

namespace MappingGraph

namespace Draft

variable {cs rest : List Char}

/-- What follows does not go on with a number. -/
def EndsNumber : List Char → Prop
  | [] => True
  | c :: _ => c.isDigit = false ∧ c ≠ '.' ∧ c ≠ 'e' ∧ c ≠ 'E'

theorem EndsNumber.takeWhile_append (h : EndsNumber rest) :
    (cs ++ rest).takeWhile Char.isDigit = cs.takeWhile Char.isDigit := by
  induction cs with
  | nil =>
    cases rest with
    | nil => rfl
    | cons c rest => exact List.takeWhile_cons_of_neg (by rw [h.1]; exact Bool.false_ne_true)
  | cons c cs ih => rw [List.cons_append, List.takeWhile_cons, List.takeWhile_cons, ih]

theorem EndsNumber.dropWhile_append (h : EndsNumber rest) :
    (cs ++ rest).dropWhile Char.isDigit = cs.dropWhile Char.isDigit ++ rest := by
  induction cs with
  | nil =>
    cases rest with
    | nil => rfl
    | cons c rest => exact List.dropWhile_cons_of_neg (by rw [h.1]; exact Bool.false_ne_true)
  | cons c cs ih =>
    rw [List.cons_append, List.dropWhile_cons, List.dropWhile_cons, ih]
    split <;> rfl

/-- Whether the reader takes a number off the text and leaves `left`, whatever follows the text. -/
def Takes (read : List Char → Draft × List Char) (cs : List Char) (n : Number) (left : List Char) :
    Prop :=
  left <:+ cs ∧ ∀ rest, EndsNumber rest → read (cs ++ rest) = (number n, left ++ rest)

variable {negative : Bool} {whole frac left : List Char} {n : Number}

/-- The sign of an exponent, and what follows it. -/
def exponentSign : List Char → Int × List Char
  | '+' :: ds => (1, ds)
  | '-' :: ds => (-1, ds)
  | ds => (1, ds)

theorem exponentSign_suffix (cs : List Char) : (exponentSign cs).2 <:+ cs := by
  unfold exponentSign
  split
  · exact List.suffix_cons _ _
  · exact List.suffix_cons _ _
  · exact List.suffix_refl _

theorem exponentSign_append (h : cs ≠ []) (rest : List Char) :
    exponentSign (cs ++ rest) = ((exponentSign cs).1, (exponentSign cs).2 ++ rest) := by
  obtain ⟨c, cs, rfl⟩ := List.exists_cons_of_ne_nil h
  by_cases hplus : c = '+'
  · subst hplus; rfl
  by_cases hminus : c = '-'
  · subst hminus; rfl
  rw [List.cons_append, exponentSign.eq_3, exponentSign.eq_3]
  · rfl
  · simp [hplus]
  · simp [hminus]
  · simp [hplus]
  · simp [hminus]

theorem readExponent_of_e {c : Char} (hc : (c = 'e' || c = 'E') = true) (cs : List Char) :
    readExponent negative whole frac (c :: cs) =
      let ds := (exponentSign cs).2
      if (ds.takeWhile Char.isDigit).isEmpty then
        (brokenNumber (ds.dropWhile Char.isDigit), ds.dropWhile Char.isDigit)
      else
        (numberOf negative whole frac
          (some ((exponentSign cs).1 * Text.digitsValue (ds.takeWhile Char.isDigit))),
          ds.dropWhile Char.isDigit) :=
  if_pos hc

theorem readExponent_of_ne {c : Char} (hc : (c = 'e' || c = 'E') = false) (cs : List Char) :
    readExponent negative whole frac (c :: cs) = (numberOf negative whole frac none, c :: cs) :=
  if_neg (by rw [hc]; exact Bool.false_ne_true)

theorem takes_readExponent (h : readExponent negative whole frac cs = (number n, left)) :
    Takes (readExponent negative whole frac) cs n left := by
  cases cs with
  | nil =>
    rw [readExponent] at h
    obtain ⟨hd, rfl⟩ := Prod.mk.inj h
    refine ⟨List.suffix_refl _, fun rest hrest ↦ ?_⟩
    cases rest with
    | nil => rw [List.nil_append, readExponent, hd]
    | cons c rest =>
      rw [List.nil_append, readExponent_of_ne (by simp [hrest.2.2]), hd]
  | cons c cs =>
    cases hc : (c = 'e' || c = 'E' : Bool) with
    | false =>
      rw [readExponent_of_ne hc] at h
      obtain ⟨hd, rfl⟩ := Prod.mk.inj h
      exact ⟨List.suffix_refl _, fun rest _ ↦ by rw [List.cons_append, readExponent_of_ne hc, hd]⟩
    | true =>
      rw [readExponent_of_e hc] at h
      have hne : cs ≠ [] := by
        rintro rfl
        cases (Prod.mk.inj h).1
      dsimp only at h
      split at h
      · cases (Prod.mk.inj h).1
      · next hdigits =>
        obtain ⟨hd, rfl⟩ := Prod.mk.inj h
        refine ⟨(List.dropWhile_suffix _).trans
          ((exponentSign_suffix cs).trans (List.suffix_cons _ _)), fun rest hrest ↦ ?_⟩
        rw [List.cons_append, readExponent_of_e hc, exponentSign_append hne]
        dsimp only
        rw [hrest.takeWhile_append, hrest.dropWhile_append, if_neg hdigits, hd]

theorem takes_readFraction (h : readFraction negative whole cs = (number n, left)) :
    Takes (readFraction negative whole) cs n left := by
  by_cases hpoint : ∃ ds, cs = '.' :: ds
  · obtain ⟨ds, rfl⟩ := hpoint
    rw [readFraction] at h
    split at h
    · cases (Prod.mk.inj h).1
    · next hdigits =>
      obtain ⟨hsuffix, htakes⟩ := takes_readExponent h
      refine ⟨hsuffix.trans ((List.dropWhile_suffix _).trans (List.suffix_cons _ _)),
        fun rest hrest ↦ ?_⟩
      rw [List.cons_append, readFraction, hrest.takeWhile_append, hrest.dropWhile_append,
        if_neg hdigits, htakes rest hrest]
  · have hcs : ∀ ds, cs = '.' :: ds → False := fun ds hds ↦ hpoint ⟨ds, hds⟩
    rw [readFraction.eq_2 _ _ _ hcs] at h
    obtain ⟨hsuffix, htakes⟩ := takes_readExponent h
    refine ⟨hsuffix, fun rest hrest ↦ ?_⟩
    rw [readFraction.eq_2, htakes rest hrest]
    intro ds hds
    cases cs with
    | nil =>
      rw [List.nil_append] at hds
      rw [hds] at hrest
      exact hrest.2.1 rfl
    | cons c cs => exact hcs cs (by rw [(List.cons.inj hds).1])

theorem takes_readNumber (h : readNumber negative cs = (number n, left)) :
    Takes (readNumber negative) cs n left := by
  rw [readNumber] at h
  split at h
  · cases (Prod.mk.inj h).1
  · cases (Prod.mk.inj h).1
  · next whole hnil hzero =>
    obtain ⟨hsuffix, htakes⟩ := takes_readFraction h
    refine ⟨hsuffix.trans (List.dropWhile_suffix _), fun rest hrest ↦ ?_⟩
    rw [readNumber, hrest.takeWhile_append, hrest.dropWhile_append]
    split
    · next h => exact absurd h hnil
    · next h => exact absurd h (hzero _ _)
    · exact htakes rest hrest

/-! ## Where a number begins -/

theorem ofText_eq {text : String} {d : Draft}
    (h : readValue (4 * text.toList.length + 4) text.toList = (d, left)) :
    ofText text = (d, if (skipSpace left).isEmpty then .ok () else .error .trailingCharacters) := by
  rw [ofText, h]

theorem skipSpace_cons {c : Char} (hc : isSpace c = false) (cs : List Char) :
    skipSpace (c :: cs) = c :: cs :=
  List.dropWhile_cons_of_neg (by rw [hc]; exact Bool.false_ne_true)

/-- What is read is told by the first character that is not blank. -/
theorem readValue_cons {c : Char} (hc : isSpace c = false) (budget : Nat) (cs : List Char) :
    readValue (budget + 1) (c :: cs) =
      if c = '"' then ofStringToken (readString ⟨[], none, none⟩ cs)
      else if c = '[' then
        (array (readItems budget true cs).1 (readItems budget true cs).2.1,
          (readItems budget true cs).2.2)
      else if c = '\x7b' then
        (object (readMembers budget true cs).1 (readMembers budget true cs).2.1,
          (readMembers budget true cs).2.2)
      else if c = '-' then readNumber true cs
      else if c.isDigit then readNumber false (c :: cs)
      else if c = 'n' then readLiteral null ['u', 'l', 'l'] cs
      else if c = 't' then readLiteral (bool true) ['r', 'u', 'e'] cs
      else if c = 'f' then readLiteral (bool false) ['a', 'l', 's', 'e'] cs
      else (missing .expectedValue, c :: cs) := by
  rw [readValue, skipSpace_cons hc]

theorem readValue_of_isDigit {c : Char} (hc : c.isDigit = true) (budget : Nat) (cs : List Char) :
    readValue (budget + 1) (c :: cs) = readNumber false (c :: cs) := by
  have hne {e : Char} (he : e.isDigit = false) : c ≠ e := fun h ↦ by
    rw [h, he] at hc
    cases hc
  rw [readValue_cons, if_neg (hne rfl), if_neg (hne rfl), if_neg (hne rfl), if_neg (hne rfl),
    if_pos hc]
  simp [isSpace, hne]

theorem ofStringToken_ne_number (t : StringToken) : (ofStringToken t).1 ≠ number n := by
  cases t <;> nofun

theorem readLiteral_ne_number {result : Draft} (hresult : ∀ n, result ≠ number n)
    (word : List Char) : (readLiteral result word cs).1 ≠ number n := by
  fun_induction readLiteral result word cs with
  | case1 => exact hresult n
  | case2 => nofun
  | case3 _ _ _ ih => exact ih
  | case4 => nofun

/-- A number is read off the front of a longer text if it is read from the text alone. -/
theorem takes_readValue {c : Char} (hc : isSpace c = false) {budget : Nat}
    (h : readValue (budget + 1) (c :: cs) = (number n, left)) (more : Nat) :
    Takes (readValue (more + 1)) (c :: cs) n left := by
  rw [readValue_cons hc] at h
  split_ifs at h with hquote hbracket hbrace hminus hdigit
  · exact absurd (congrArg Prod.fst h) (ofStringToken_ne_number _)
  · cases (Prod.mk.inj h).1
  · cases (Prod.mk.inj h).1
  · obtain ⟨hsuffix, htakes⟩ := takes_readNumber h
    refine ⟨hsuffix.trans (List.suffix_cons _ _), fun rest hrest ↦ ?_⟩
    rw [List.cons_append, readValue_cons hc, if_neg hquote, if_neg hbracket, if_neg hbrace,
      if_pos hminus, htakes rest hrest]
  · obtain ⟨hsuffix, htakes⟩ := takes_readNumber h
    refine ⟨hsuffix, fun rest hrest ↦ ?_⟩
    rw [List.cons_append, readValue_cons hc, if_neg hquote, if_neg hbracket, if_neg hbrace,
      if_neg hminus, if_pos hdigit, ← List.cons_append, htakes rest hrest]
  · exact absurd (congrArg Prod.fst h) (readLiteral_ne_number (fun _ ↦ by nofun) _)
  · exact absurd (congrArg Prod.fst h) (readLiteral_ne_number (fun _ ↦ by nofun) _)
  · exact absurd (congrArg Prod.fst h) (readLiteral_ne_number (fun _ ↦ by nofun) _)
  · cases (Prod.mk.inj h).1

end Draft

namespace Decoder

variable {α : Type}

theorem ofText?_eq {decode : Decoder α} {text : String} {d : Draft} {left : List Char}
    (h : Draft.readValue (4 * text.toList.length + 4) text.toList = (d, left)) :
    ofText? decode text = decode (.text Standing.textRoom) d >>= fun a ↦
      syntactic (if (Draft.skipSpace left).isEmpty then .ok () else .error .trailingCharacters) >>=
        fun _ ↦ .ok a := by
  rw [ofText?, Draft.ofText_eq h]
  rfl

end Decoder

/-! ## The text of a number -/

/-- The character may stand in a number. -/
def isNumeral (c : Char) : Bool := c.isDigit || c = '-' || c = '+' || c = '.' || c = 'e'

theorem not_isSpace_of_isNumeral {c : Char} (h : isNumeral c = true) :
    Draft.isSpace c = false := by
  by_contra hspace
  simp only [Draft.isSpace, Bool.not_eq_false, Bool.or_eq_true, decide_eq_true_eq] at hspace
  rcases hspace with ((rfl | rfl) | rfl) | rfl <;> cases h

theorem all_isNumeral_of_isDigit {cs : List Char} (h : ∀ c ∈ cs, c.isDigit = true) :
    cs.all isNumeral = true :=
  List.all_eq_true.mpr fun c hc ↦ by simp [isNumeral, h c hc]

theorem Text.all_isNumeral_natText (n : Nat) : (natText n).toList.all isNumeral = true := by
  rw [natText, String.toList_ofList]
  exact all_isNumeral_of_isDigit fun _ ↦ isDigit_of_mem_natDigits

theorem Text.all_isNumeral_intText (i : Int) : (intText i).toList.all isNumeral = true := by
  rw [intText]
  split
  · rw [String.toList_append, List.all_append, all_isNumeral_natText]
    rfl
  · exact all_isNumeral_natText _

namespace Binary64

variable {x : Binary64}

theorem isDigit_of_mem_shortest {c : Char} (h : c ∈ x.shortest.1) : c.isDigit = true := by
  rw [shortest] at h
  split_ifs at h
  · cases List.mem_singleton.mp h
    rfl
  · exact Text.isDigit_of_mem_natDigits
      (List.mem_reverse.mp ((List.dropWhile_suffix _).mem (List.mem_reverse.mp h)))

theorem all_isNumeral_text (x : Binary64) : x.text.toList.all isNumeral = true := by
  have hdigits : ∀ c ∈ x.shortest.1, c.isDigit = true := fun _ ↦ isDigit_of_mem_shortest
  rw [text]
  generalize x.shortest = shortest at hdigits ⊢
  obtain ⟨digits, k⟩ := shortest
  dsimp only at hdigits ⊢
  have hzeros (k : Nat) : (List.replicate k '0').all isNumeral = true :=
    all_isNumeral_of_isDigit fun c hc ↦ List.eq_of_mem_replicate hc ▸ rfl
  have hall := all_isNumeral_of_isDigit hdigits
  have hpointed {cs : List Char} (h : ∀ c ∈ cs, c = '.' ∨ c ∈ digits) :
      cs.all isNumeral = true := by
    refine List.all_eq_true.mpr fun c hc ↦ ?_
    rcases h c hc with rfl | hc
    · rfl
    · exact List.all_eq_true.mp hall c hc
  have hsigned (s : String) : (if x.negative then "-" ++ s else s).toList.all isNumeral =
      s.toList.all isNumeral := by
    split
    · rw [String.toList_append, List.all_append]
      rfl
    · rfl
  rw [hsigned]
  split_ifs
  · rfl
  · simp only [String.toList_append, String.toList_ofList, List.all_append, hzeros, hall]
    rfl
  · simp only [String.toList_append, String.toList_ofList, List.all_append, hzeros, hall]
    rfl
  · rw [String.toList_ofList]
    refine hpointed fun c hc ↦ ?_
    rcases List.mem_append.mp hc with hc | hc
    · exact .inr (List.mem_of_mem_take hc)
    · exact (List.mem_cons.mp hc).imp_right List.mem_of_mem_drop
  -- the point stands after the first digit, if there are others
  all_goals
    simp only [String.toList_append, String.toList_ofList, List.all_append,
      Text.all_isNumeral_natText]
    rw [hpointed fun c hc ↦ ?_]
    · rfl
    split at hc
    · exact .inr hc
    · exact .inr hc
    · simp only [List.mem_cons] at hc ⊢
      tauto

end Binary64

namespace Number

variable {n : Number} {rest : List Char}

theorem all_isNumeral_text (n : Number) : n.text.toList.all isNumeral = true := by
  cases n with
  | integer i => exact Text.all_isNumeral_intText i
  | fractional x => exact x.all_isNumeral_text

/-- The number is what its text is read as. -/
def ReadsBack (n : Number) : Prop := Json.ofText? n.text = .ok (.number n)

/-- What the text of the number is read as, if it is read as a number. -/
def reread (n : Number) : Number :=
  match Json.ofText? n.text with
  | .ok (.number m) => m
  | _ => n

/-- The text of the number is read as a number. -/
def Readable (n : Number) : Prop := Json.ofText? n.text = .ok (.number n.reread)

theorem reread_eq_of_ofText? {m : Number} (h : Json.ofText? n.text = .ok (.number m)) :
    n.reread = m := by
  rw [reread, h]

theorem readable_of_ofText? {m : Number} (h : Json.ofText? n.text = .ok (.number m)) :
    n.Readable := by
  rw [Readable, reread_eq_of_ofText? h, h]

theorem readsBack_iff : n.ReadsBack ↔ n.Readable ∧ n.reread = n := by
  constructor
  · intro h
    exact ⟨readable_of_ofText? h, reread_eq_of_ofText? h⟩
  · rintro ⟨h, heq⟩
    rwa [Readable, heq] at h

theorem eq_number_of_value? {standing : Standing} {d : Draft}
    (h : d.value? standing = .ok (.number n)) : d = .number n := by
  cases d with
  | null | bool | string | badString | badToken | missing => cases h
  | number m =>
    cases h
    rfl
  | array xs ending =>
    obtain ⟨_, _, h⟩ := exists_of_bind_eq_ok h
    obtain ⟨_, _, h⟩ := exists_of_bind_eq_ok h
    obtain ⟨_, _, h⟩ := exists_of_bind_eq_ok h
    cases h
  | object ms ending =>
    obtain ⟨_, _, h⟩ := exists_of_bind_eq_ok h
    obtain ⟨_, _, h⟩ := exists_of_bind_eq_ok h
    obtain ⟨_, _, h⟩ := exists_of_bind_eq_ok h
    cases h

/-- **A number that is read** is read in front of anything that ends it. -/
theorem Readable.readValue_append (h : n.Readable) (budget : Nat)
    (hrest : Draft.EndsNumber rest) :
    Draft.readValue (budget + 1) (n.text.toList ++ rest) = (.number n.reread, rest) := by
  have hspace : ∀ c ∈ n.text.toList, Draft.isSpace c = false := fun c hc ↦
    not_isSpace_of_isNumeral (List.all_eq_true.mp n.all_isNumeral_text c hc)
  rw [Readable, Json.ofText?] at h
  generalize n.reread = m at h ⊢
  cases hread : Draft.readValue (4 * n.text.toList.length + 4) n.text.toList with
  | mk d left =>
    rw [Decoder.ofText?_eq hread] at h
    obtain ⟨v, hv, h⟩ := exists_of_bind_eq_ok h
    obtain ⟨_, hleft, h⟩ := exists_of_bind_eq_ok h
    cases h
    cases eq_number_of_value? (Decoder.eq_ok_of_syntactic hv)
    have hempty : Draft.skipSpace left = [] := by
      by_contra hne
      rw [if_neg (mt List.isEmpty_iff.mp hne)] at hleft
      cases hleft
    cases htext : n.text.toList with
    | nil =>
      rw [htext] at hread
      cases (Prod.mk.inj hread).1
    | cons c cs =>
      rw [htext] at hread hspace
      obtain ⟨hsuffix, htakes⟩ :=
        Draft.takes_readValue (hspace c List.mem_cons_self) hread budget
      have hleft : left = [] := by
        cases left with
        | nil => rfl
        | cons l left =>
          rw [Draft.skipSpace_cons (hspace l (hsuffix.mem List.mem_cons_self))] at hempty
          cases hempty
      rw [htakes rest hrest, hleft, List.nil_append]

/-- Digits alone are read as an integer if it fits 64 bits and is not a negative zero. -/
theorem readNumber_natDigits {negative : Bool} {m : Nat} (hzero : negative = true → m ≠ 0) {i : Int}
    (hi : i = if negative then -(m : Int) else m) (hmin : minInteger ≤ i) (hmax : i ≤ maxInteger) :
    Draft.readNumber negative (Text.natDigits m) = (.number (.integer i), []) := by
  have hdigit : ∀ c ∈ Text.natDigits m, c.isDigit = true := fun _ ↦ Text.isDigit_of_mem_natDigits
  rw [Draft.readNumber, List.takeWhile_eq_self_iff.mpr hdigit, List.dropWhile_eq_nil_iff.mpr hdigit]
  split
  · next h => exact absurd h (Text.natDigits_ne_nil m)
  · next h => cases Text.eq_nil_of_natDigits_eq h
  · change (Draft.numberOf negative (Text.natDigits m) [] none, ([] : List Char)) = _
    rw [Draft.numberOf, List.append_nil, Text.digitsValue_natDigits, ← hi, if_pos]
    cases negative <;> simp_all

/-- Integers of 64 bits are read back. -/
theorem readsBack_integer {i : Int} (hmin : minInteger ≤ i) (hmax : i ≤ maxInteger) :
    ReadsBack (.integer i) := by
  have hread : Draft.readValue (4 * (Text.intText i).toList.length + 4) (Text.intText i).toList =
      (.number (.integer i), []) := by
    rw [Text.intText]
    split
    · next hneg =>
      simp only [String.toList_append, Text.natText, String.toList_ofList]
      refine (Draft.readValue_cons rfl _ _).trans ?_
      have hvalue : i = if true then -(i.natAbs : Int) else i.natAbs := by
        rw [if_pos rfl, Int.ofNat_natAbs_of_nonpos (Int.le_of_lt hneg), Int.neg_neg]
      exact readNumber_natDigits (fun _ ↦ by omega) hvalue hmin hmax
    · next hneg =>
      have hvalue : i = if false then -(i.natAbs : Int) else i.natAbs := by
        rw [if_neg Bool.false_ne_true, Int.natAbs_of_nonneg (Int.not_lt.mp hneg)]
      rw [Text.natText, String.toList_ofList]
      have hnumber := readNumber_natDigits (fun h ↦ absurd h Bool.false_ne_true) hvalue hmin hmax
      cases hdigits : Text.natDigits i.natAbs with
      | nil => exact absurd hdigits (Text.natDigits_ne_nil _)
      | cons c cs =>
        rw [hdigits] at hnumber
        exact (Draft.readValue_of_isDigit
          (Text.isDigit_of_mem_natDigits (hdigits ▸ List.mem_cons_self)) _ _).trans hnumber
  rw [ReadsBack, Json.ofText?, text, Decoder.ofText?_eq hread]
  rfl

/-- The number is an integer of 64 bits, or a fractional number that is what its text is read as. -/
def Legible : Number → Prop
  | integer i => minInteger ≤ i ∧ i ≤ maxInteger
  | fractional x => ReadsBack (.fractional x)

theorem Legible.readsBack (h : n.Legible) : n.ReadsBack := by
  cases n with
  | integer i => exact readsBack_integer h.1 h.2
  | fractional x => exact h

end Number

end MappingGraph
