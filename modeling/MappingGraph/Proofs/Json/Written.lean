import MappingGraph.Proofs.Json.Numbers
import MappingGraph.Proofs.Json.Positions

/-!
# Reading what was written

A value is written in one of two layouts, without blanks or with a line for each item and member.
`Json.written` covers both: a `Layout` says which blanks stand where.  What is read from the written
form of a value is the value itself, in whatever layout, but for its numbers: each is read as its
own text is (`Json.Readable.ofText_of_mem_texts`).  So a value is read as it was if and only if each
of its numbers is (`Json.readable_and_reread_eq_iff`).

The induction is on the value.  A written value is read wherever it stands, as long as what follows
does not go on with a number, and a budget of three times its length will do.
-/

set_option autoImplicit false

namespace MappingGraph

/-! ## Strings -/

namespace Draft

variable {cs rest : List Char}

/-- The two digits that a control character is written with denote it. -/
theorem hexNumber?_control : ∀ n < 0x20, Text.hexNumber?
    ['0', '0', Nat.digitChar (n / 16), Nat.digitChar (n % 16)] = some n := by
  decide

/-- A character that is written is read. -/
theorem readString_escaped (reversed : List Char) (c : Char) :
    readString ⟨reversed, none, none⟩ (Json.escaped c ++ cs) =
      readString ⟨c :: reversed, none, none⟩ cs := by
  rw [Json.escaped]
  split_ifs with hquote hslash hb hf hn hr ht hcontrol
  -- seven characters have a letter of their own
  · subst hquote; rfl
  · subst hslash; rfl
  · subst hb; rfl
  · subst hf; rfl
  · subst hn; rfl
  · subst hr; rfl
  · subst ht; rfl
  · have hunit : StringState.pushUnit ⟨reversed, none, none⟩ c.toNat =
        ⟨Char.ofNat c.toNat :: reversed, none, none⟩ := by
      rw [StringState.pushUnit, if_neg (by simp; omega)]
      exact if_neg (by simp; omega)
    rw [List.cons_append, List.cons_append, List.cons_append, List.cons_append, List.cons_append,
      List.cons_append, List.nil_append, readString, hex4?, hexNumber?_control _ hcontrol]
    change readString (StringState.pushUnit _ _) cs = _
    rw [hunit, Char.ofNat_toNat]
  · rw [List.singleton_append, readString.eq_6 _ _ _ hquote (fun _ _ _ _ _ h ↦ absurd h hslash)
      (fun _ _ h ↦ absurd h hslash) (fun h ↦ absurd h hslash), if_neg hcontrol]
    rfl

theorem readString_flatMap_escaped (reversed chars : List Char) :
    readString ⟨reversed, none, none⟩ (chars.flatMap Json.escaped ++ '"' :: rest) =
      .complete (String.ofList (reversed.reverse ++ chars)) rest := by
  induction chars generalizing reversed with
  | nil => rw [List.flatMap_nil, List.nil_append, readString, List.append_nil]; rfl
  | cons c chars ih =>
    rw [List.flatMap_cons, List.append_assoc, readString_escaped, ih, List.reverse_cons,
      List.append_assoc, List.singleton_append]

theorem readString_quoted (s : String) (rest : List Char) :
    ∃ cs, (Json.quoted s).toList ++ rest = '"' :: cs ∧
      readString ⟨[], none, none⟩ cs = .complete s rest := by
  refine ⟨s.toList.flatMap Json.escaped ++ '"' :: rest, ?_, ?_⟩
  · simp [Json.quoted]
  · rw [readString_flatMap_escaped]
    simp

end Draft

/-! ## Layouts -/

/-- Where blanks stand around the tokens of a written value. -/
structure Layout where
  /-- What stands before an item or a closing bracket of a level. -/
  gap : Nat → List Char
  /-- What stands between a colon and a value. -/
  afterColon : List Char
  isSpace_gap : ∀ level, ∀ c ∈ gap level, Draft.isSpace c = true
  isSpace_afterColon : ∀ c ∈ afterColon, Draft.isSpace c = true

namespace Layout

/-- What stands in front of a part. -/
def comma (first : Bool) : List Char := if first then [] else [',']

@[simp] theorem comma_true : comma true = [] := rfl

@[simp] theorem comma_false : comma false = [','] := rfl

/-- Parts between two brackets. -/
def spread (l : Layout) (level : Nat) : (first : Bool) → List (List Char) → List Char
  | true, [] => []
  | false, [] => l.gap level
  | first, part :: parts =>
    comma first ++ (l.gap (level + 1) ++ (part ++ l.spread level false parts))

theorem spread_cons_append (l : Layout) (level : Nat) (first : Bool) (part : List Char)
    (parts : List (List Char)) (rest : List Char) :
    l.spread level first (part :: parts) ++ rest =
      comma first ++ (l.gap (level + 1) ++ (part ++ (l.spread level false parts ++ rest))) := by
  simp [spread]

theorem length_spread_cons (l : Layout) (level : Nat) (first : Bool) (part : List Char)
    (parts : List (List Char)) :
    part.length + (l.spread level false parts).length ≤
      (l.spread level first (part :: parts)).length := by
  simp only [spread, List.length_append]
  omega

/-- No blanks at all. -/
def compact : Layout where
  gap _ := []
  afterColon := []
  isSpace_gap _ _ h := absurd h List.not_mem_nil
  isSpace_afterColon _ h := absurd h List.not_mem_nil

/-- Every part on a line of its own. -/
def pretty : Layout where
  gap level := '\n' :: List.replicate (2 * level) ' '
  afterColon := [' ']
  isSpace_gap level c h := by
    rcases List.mem_cons.mp h with rfl | h
    · rfl
    · exact List.eq_of_mem_replicate h ▸ rfl
  isSpace_afterColon c h := List.mem_singleton.mp h ▸ rfl

theorem spread_compact (level : Nat) (parts : List (List Char)) :
    compact.spread level true parts = List.intercalate [','] parts := by
  have hrest (part : List Char) (parts : List (List Char)) :
      part ++ compact.spread level false parts = List.intercalate [','] (part :: parts) := by
    induction parts generalizing part with
    | nil => exact (List.append_nil _).trans (by simp)
    | cons p parts ih =>
      rw [List.intercalate_cons_cons, ← ih, spread]
      simp [compact]
  cases parts with
  | nil => rfl
  | cons part parts => rw [← hrest, spread]; rfl

theorem spread_pretty (level : Nat) (parts : List String) {left right : String} :
    left.toList ++ pretty.spread level true (parts.map String.toList) ++ right.toList =
      (Json.block level left right parts).toList := by
  have hrest (part : String) (parts : List String) :
      part.toList ++ pretty.spread level false (parts.map String.toList) =
        (String.intercalate ("," ++ Json.newLine (level + 1)) (part :: parts)).toList ++
          (Json.newLine level).toList := by
    induction parts generalizing part with
    | nil => simp [spread, pretty, Json.newLine]
    | cons p parts ih =>
      rw [String.intercalate_cons_cons, String.toList_append, List.append_assoc, ← ih,
        List.map_cons, spread]
      simp [pretty, Json.newLine]
  cases parts with
  | nil => simp [spread, Json.block]
  | cons part parts =>
    rw [Json.block]
    · simp only [String.toList_append, List.append_assoc]
      rw [← List.append_assoc _ (Json.newLine level).toList, ← hrest, List.map_cons, spread]
      simp [pretty, Json.newLine]
    · nofun

end Layout

/-! ## Written values -/

namespace Json

/-- The value laid out from a level on. -/
def written (l : Layout) (level : Nat) : Json → List Char
  | null => "null".toList
  | bool true => "true".toList
  | bool false => "false".toList
  | number n => n.text.toList
  | string s => (quoted s).toList
  | array xs => '[' :: (l.spread level true (ofItems (level + 1) xs) ++ [']'])
  | object ms => '\x7b' :: (l.spread level true (ofMembers (level + 1) ms) ++ ['\x7d'])
where
  ofItems (level : Nat) : List Json → List (List Char)
    | [] => []
    | x :: xs => x.written l level :: ofItems level xs
  ofMembers (level : Nat) : List (String × Json) → List (List Char)
    | [] => []
    | (k, v) :: ms =>
      ((quoted k).toList ++ ':' :: (l.afterColon ++ v.written l level)) :: ofMembers level ms

section Equations

variable (l : Layout) (level : Nat)

theorem written_string (s : String) : (string s).written l level = (quoted s).toList := rfl

theorem written_array (xs : List Json) : (array xs).written l level =
    '[' :: (l.spread level true (written.ofItems l (level + 1) xs) ++ [']']) := rfl

theorem written_object (ms : Members) : (object ms).written l level =
    '\x7b' :: (l.spread level true (written.ofMembers l (level + 1) ms) ++ ['\x7d']) := rfl

end Equations

theorem toList_compactItems {xs : List Json} {level : Nat}
    (h : ∀ x ∈ xs, x.compact.toList = x.written .compact level) :
    (compact.compactItems xs).map String.toList = written.ofItems .compact level xs := by
  induction xs with
  | nil => rfl
  | cons x xs ih =>
    rw [compact.compactItems, List.map_cons, h x List.mem_cons_self,
      ih fun y hy ↦ h y (List.mem_cons_of_mem x hy), written.ofItems]

theorem toList_compactMembers {ms : Members} {level : Nat}
    (h : ∀ m ∈ ms, m.2.compact.toList = m.2.written .compact level) :
    (compact.compactMembers ms).map String.toList = written.ofMembers .compact level ms := by
  induction ms with
  | nil => rfl
  | cons m ms ih =>
    rw [compact.compactMembers, List.map_cons, String.toList_append, String.toList_append,
      h m List.mem_cons_self, ih fun n hn ↦ h n (List.mem_cons_of_mem m hn), written.ofMembers]
    simp [Layout.compact]

theorem toList_compact (v : Json) (level : Nat) :
    v.compact.toList = v.written .compact level := by
  induction v using ind generalizing level with
  | null | number | string => rfl
  | bool b => cases b <;> rfl
  | array xs ih =>
    rw [compact, String.toList_append, String.toList_append, String.toList_intercalate,
      toList_compactItems fun x hx ↦ ih x hx (level + 1), written_array, Layout.spread_compact]
    rfl
  | object ms ih =>
    rw [compact, String.toList_append, String.toList_append, String.toList_intercalate,
      toList_compactMembers fun m hm ↦ ih m hm (level + 1), written_object,
      Layout.spread_compact]
    rfl

theorem toList_prettyItems {xs : List Json} {level : Nat}
    (h : ∀ x ∈ xs, (x.prettyAt level).toList = x.written .pretty level) :
    (prettyAt.prettyItems level xs).map String.toList = written.ofItems .pretty level xs := by
  induction xs with
  | nil => rfl
  | cons x xs ih =>
    rw [prettyAt.prettyItems, List.map_cons, h x List.mem_cons_self,
      ih fun y hy ↦ h y (List.mem_cons_of_mem x hy), written.ofItems]

theorem toList_prettyMembers {ms : Members} {level : Nat}
    (h : ∀ m ∈ ms, (m.2.prettyAt level).toList = m.2.written .pretty level) :
    (prettyAt.prettyMembers level ms).map String.toList = written.ofMembers .pretty level ms := by
  induction ms with
  | nil => rfl
  | cons m ms ih =>
    rw [prettyAt.prettyMembers, List.map_cons, String.toList_append, String.toList_append,
      h m List.mem_cons_self, ih fun n hn ↦ h n (List.mem_cons_of_mem m hn), written.ofMembers]
    simp [Layout.pretty]

theorem toList_prettyAt (v : Json) (level : Nat) :
    (v.prettyAt level).toList = v.written .pretty level := by
  induction v using ind generalizing level with
  | null | number | string => rfl
  | bool b => cases b <;> rfl
  | array xs ih =>
    rw [prettyAt, ← Layout.spread_pretty, toList_prettyItems fun x hx ↦ ih x hx (level + 1),
      written_array]
    rfl
  | object ms ih =>
    rw [prettyAt, ← Layout.spread_pretty, toList_prettyMembers fun m hm ↦ ih m hm (level + 1),
      written_object]
    rfl

/-! ## Numbers -/

/-- All numbers in the value are legible. -/
abbrev Legible (v : Json) : Prop := v.AllNumbers Number.Legible

/-- The texts of all numbers in the value are read as numbers. -/
abbrev Readable (v : Json) : Prop := v.AllNumbers Number.Readable

theorem AllNumbers.readable {v : Json} (h : v.Representable) : v.Readable :=
  h.imp fun _ ↦ Number.Representable.readable

/-- The value with all numbers as their texts are read. -/
def reread : Json → Json
  | number n => number n.reread
  | array xs => array (ofItems xs)
  | object ms => object (ofMembers ms)
  | v => v
where
  ofItems : List Json → List Json
    | [] => []
    | x :: xs => x.reread :: ofItems xs
  ofMembers : List (String × Json) → List (String × Json)
    | [] => []
    | (k, x) :: ms => (k, x.reread) :: ofMembers ms

/-- A member with its value as it is read. -/
def rereadMember (m : String × Json) : String × Json := (m.1, m.2.reread)

theorem reread_array (xs : List Json) : (array xs).reread = array (xs.map reread) := by
  rw [reread]
  congr 1
  induction xs with
  | nil => rfl
  | cons x xs ih => rw [reread.ofItems, ih, List.map_cons]

theorem reread_object (ms : Members) : (object ms).reread = object (ms.map rereadMember) := by
  rw [reread]
  congr 1
  induction ms with
  | nil => rfl
  | cons m ms ih => rw [reread.ofMembers, ih, List.map_cons, rereadMember]

/-- The members stay where they are. -/
theorem Canonical.reread {v : Json} (h : v.Canonical) : v.reread.Canonical := by
  induction h with
  | null => exact .null
  | bool => exact .bool _
  | number => exact .number _
  | string => exact .string _
  | array _ ih =>
    rw [reread_array]
    exact .array (List.forall_mem_map.mpr ih)
  | object hms _ ih =>
    rw [reread_object]
    exact .object (List.pairwise_map.mpr hms) (List.forall_mem_map.mpr ih)

theorem reread_eq_self_iff {v : Json} : v.reread = v ↔ v.AllNumbers fun n ↦ n.reread = n := by
  induction v using ind with
  | null => exact iff_of_true rfl .null
  | bool b => exact iff_of_true rfl (.bool b)
  | string s => exact iff_of_true rfl (.string s)
  | number n =>
    rw [reread, number.injEq]
    exact ⟨fun h ↦ .number h, fun | .number h => h⟩
  | array xs ih =>
    rw [reread_array, array.injEq, map_eq_self_iff, forall₂_congr ih]
    exact ⟨fun h ↦ .array h, fun | .array h => h⟩
  | object ms ih =>
    have hmember : ∀ m ∈ ms, rereadMember m = m ↔ m.2.AllNumbers fun n ↦ n.reread = n :=
      fun m hm ↦ by rw [← ih m hm, rereadMember, Prod.ext_iff, and_iff_right rfl]
    rw [reread_object, object.injEq, map_eq_self_iff, forall₂_congr hmember]
    exact ⟨fun h ↦ .object h, fun | .object h => h⟩

/-- **A value comes back as it was** if and only if each number does. -/
theorem readable_and_reread_eq_iff {v : Json} :
    v.Readable ∧ v.reread = v ↔ v.AllNumbers Number.ReadsBack := by
  have hnumbers : Number.ReadsBack = fun n ↦ n.Readable ∧ n.reread = n :=
    funext fun _ ↦ propext Number.readsBack_iff
  rw [reread_eq_self_iff, hnumbers, allNumbers_and_iff]

theorem Legible.readable_and_reread_eq {v : Json} (h : v.Legible) : v.Readable ∧ v.reread = v :=
  readable_and_reread_eq_iff.mpr (h.imp fun _ ↦ Number.Legible.readsBack)

/-! ## Reading -/

end Json

namespace Draft

/-- The text begins with a character that is no blank and no closing bracket. -/
def Begins (cs : List Char) : Prop := ∃ c ds, cs = c :: ds ∧ isSpace c = false ∧ c ≠ ']'

theorem Begins.append {cs : List Char} (h : Begins cs) (rest : List Char) :
    Begins (cs ++ rest) := by
  obtain ⟨c, ds, rfl, h⟩ := h
  exact ⟨c, ds ++ rest, rfl, h⟩

theorem Begins.length_pos {cs : List Char} (h : Begins cs) : 0 < cs.length := by
  obtain ⟨c, ds, rfl, _⟩ := h
  exact Nat.succ_pos _

end Draft

namespace Json

/-- A written value begins with a character that is no blank and no closing bracket. -/
theorem Readable.begins_written {v : Json} (h : v.Readable) (l : Layout) (level : Nat) :
    Draft.Begins (v.written l level) := by
  cases h with
  | null | array | object => exact ⟨_, _, rfl, rfl, by decide⟩
  | bool b => cases b <;> exact ⟨_, _, rfl, rfl, by decide⟩
  | string s =>
    exact ⟨'"', s.toList.flatMap escaped ++ ['"'], by simp [written_string, quoted], rfl, by decide⟩
  | @number n hn =>
    have hread := hn.readValue_append 0 (show Draft.EndsNumber [] from trivial)
    rw [List.append_nil] at hread
    cases htext : n.text.toList with
    | nil =>
      rw [htext] at hread
      cases (Prod.mk.inj hread).1
    | cons c cs =>
      have hc : isNumeral c = true :=
        List.all_eq_true.mp n.all_isNumeral_text c (htext ▸ List.mem_cons_self)
      refine ⟨c, cs, htext, not_isSpace_of_isNumeral hc, ?_⟩
      rintro rfl
      cases hc

/-- The written value is read, with all numbers as their texts are, wherever it stands. -/
def WrittenReads (l : Layout) (v : Json) : Prop := ∀ level budget rest,
  3 * (v.written l level).length ≤ budget + 1 → Draft.EndsNumber rest →
    Draft.readValue (budget + 1) (v.written l level ++ rest) = (.ofJson v.reread, rest)

end Json

namespace Draft

variable {cs rest blanks : List Char}

theorem skipSpace_append (h : ∀ c ∈ blanks, isSpace c = true) (cs : List Char) :
    skipSpace (blanks ++ cs) = skipSpace cs :=
  List.dropWhile_append_of_pos h

theorem EndsNumber.append (h : ∀ c ∈ blanks, isSpace c = true) (hrest : EndsNumber rest) :
    EndsNumber (blanks ++ rest) := by
  cases blanks with
  | nil => exact hrest
  | cons c blanks =>
    have hc := h c List.mem_cons_self
    simp only [isSpace, Bool.or_eq_true, decide_eq_true_eq] at hc
    rcases hc with ((rfl | rfl) | rfl) | rfl <;> exact ⟨rfl, by decide⟩

variable {l : Layout} {level : Nat}

theorem isLast_ofJson (v : Json) : (ofJson v).isLast = false := by
  cases v <;> rfl

variable {budget : Nat} {c : Char} {first : Bool}

theorem EndsNumber.spread (h : EndsNumber (c :: rest)) (l : Layout) (level : Nat)
    (parts : List (List Char)) : EndsNumber (l.spread level false parts ++ c :: rest) := by
  cases parts with
  | nil => exact h.append (l.isSpace_gap level)
  | cons part parts => exact ⟨rfl, by decide⟩

theorem readValue_append (h : ∀ c ∈ blanks, isSpace c = true) (cs : List Char) :
    readValue budget (blanks ++ cs) = readValue budget cs := by
  cases budget with
  | zero => rfl
  | succ budget => rw [readValue, readValue, skipSpace_append h]

theorem readItems_closed (h : skipSpace cs = ']' :: rest) :
    readItems (budget + 1) first cs = ([], .closed, rest) := by
  rw [readItems, h]
  rfl

theorem readItems_comma (hblanks : ∀ c ∈ blanks, isSpace c = true) (hcs : Begins cs) :
    readItems (budget + 1) first (Layout.comma first ++ (blanks ++ cs)) = readItem budget cs := by
  obtain ⟨c, ds, rfl, hspace, hc⟩ := hcs
  have hskip := (skipSpace_append hblanks (c :: ds)).trans (skipSpace_cons hspace ds)
  cases first with
  | true =>
    rw [readItems, Layout.comma_true, List.nil_append, hskip]
    split
    · cases ‹_›
    · next heq => exact absurd (List.cons.inj heq).1 hc
    · next heq => cases heq; rfl
  | false =>
    rw [readItems, Layout.comma_false, List.singleton_append, skipSpace_cons rfl]
    -- The reader looks for a closing bracket twice, at the comma and behind it.
    split
    · cases ‹_›
    · next heq => exact absurd (List.cons.inj heq).1 (by decide)
    · next heq =>
      obtain ⟨rfl, rfl⟩ := List.cons.inj heq
      rw [if_neg Bool.false_ne_true, if_pos rfl, hskip]
      split
      · cases ‹_›
      · next heq => exact absurd (List.cons.inj heq).1 hc
      · rfl

theorem readItem_eq {d : Draft} (h : readValue budget cs = (d, rest)) (hd : d.isLast = false) :
    readItem (budget + 1) cs =
      (d :: (readItems budget false rest).1, (readItems budget false rest).2) := by
  rw [readItem, h]
  exact if_neg (ne_true_of_eq_false hd)

/-- The written items of an array are read. -/
theorem readItems_spread {xs : List Json} (hreadable : ∀ x ∈ xs, x.Readable)
    (hreads : ∀ x ∈ xs, x.WrittenReads l)
    (hbudget : 3 * (l.spread level first (Json.written.ofItems l (level + 1) xs)).length + 2 ≤
      budget) :
    readItems budget first
        (l.spread level first (Json.written.ofItems l (level + 1) xs) ++ ']' :: rest) =
      (ofJson.ofItems (xs.map Json.reread), .closed, rest) := by
  induction xs generalizing budget first with
  | nil =>
    obtain ⟨budget, rfl⟩ := Nat.exists_eq_add_of_le' (Nat.le_of_add_left_le hbudget)
    refine readItems_closed ?_
    cases first with
    | true => exact skipSpace_cons rfl _
    | false => exact (skipSpace_append (l.isSpace_gap level) _).trans (skipSpace_cons rfl _)
  | cons x xs ih =>
    have hbegins := (hreadable x List.mem_cons_self).begins_written l (level + 1)
    have hlength := l.length_spread_cons level first (x.written l (level + 1))
      (Json.written.ofItems l (level + 1) xs)
    have hpos := hbegins.length_pos
    rw [Json.written.ofItems] at hbudget ⊢
    obtain ⟨budget, rfl⟩ := Nat.exists_eq_add_of_le' (show 3 ≤ budget by omega)
    have hread := hreads x List.mem_cons_self (level + 1) budget
      (l.spread level false (Json.written.ofItems l (level + 1) xs) ++ ']' :: rest) (by omega)
      (EndsNumber.spread ⟨rfl, by decide⟩ l level _)
    rw [Layout.spread_cons_append, readItems_comma (l.isSpace_gap _) (hbegins.append _),
      readItem_eq hread (isLast_ofJson _), ih (fun y hy ↦ hreadable y (List.mem_cons_of_mem x hy))
        (fun y hy ↦ hreads y (List.mem_cons_of_mem x hy)) (by omega)]
    rfl

theorem readMembers_closed (h : skipSpace cs = '\x7d' :: rest) :
    readMembers (budget + 1) first cs = ([], .closed, rest) := by
  rw [readMembers, h]
  rfl

theorem readMembers_comma (hblanks : ∀ c ∈ blanks, isSpace c = true) (cs : List Char) :
    readMembers (budget + 1) first (Layout.comma first ++ (blanks ++ '"' :: cs)) =
      readMember budget ('"' :: cs) := by
  have hskip := (skipSpace_append hblanks ('"' :: cs)).trans (skipSpace_cons rfl cs)
  cases first with
  | true =>
    rw [readMembers, Layout.comma_true, List.nil_append, hskip]
    rfl
  | false =>
    have hcomma : skipSpace (',' :: (blanks ++ '"' :: cs)) = ',' :: (blanks ++ '"' :: cs) :=
      skipSpace_cons rfl _
    simp only [readMembers, Layout.comma_false, List.singleton_append, hcomma, hskip]
    rfl

theorem readMember_eq {key : String} {d : Draft} {left : List Char}
    (hkey : readString ⟨[], none, none⟩ cs = .complete key (':' :: rest))
    (h : readValue budget rest = (d, left)) (hd : d.isLast = false) :
    readMember (budget + 1) ('"' :: cs) =
      ((.text key, d) :: (readMembers budget false left).1, (readMembers budget false left).2) := by
  have hskip : skipSpace (':' :: rest) = ':' :: rest := skipSpace_cons rfl rest
  rw [readMember, hkey, keyOfStringToken]
  simp only [hskip, h, hd, Bool.false_eq_true, if_false]

/-- The written members of an object are read. -/
theorem readMembers_spread {ms : Members} (hreads : ∀ m ∈ ms, m.2.WrittenReads l)
    (hbudget : 3 * (l.spread level first (Json.written.ofMembers l (level + 1) ms)).length + 2 ≤
      budget) :
    readMembers budget first
        (l.spread level first (Json.written.ofMembers l (level + 1) ms) ++ '\x7d' :: rest) =
      (ofJson.ofMembers (ms.map Json.rereadMember), .closed, rest) := by
  induction ms generalizing budget first with
  | nil =>
    obtain ⟨budget, rfl⟩ := Nat.exists_eq_add_of_le' (Nat.le_of_add_left_le hbudget)
    refine readMembers_closed ?_
    cases first with
    | true => exact skipSpace_cons rfl _
    | false => exact (skipSpace_append (l.isSpace_gap level) _).trans (skipSpace_cons rfl _)
  | cons m ms ih =>
    obtain ⟨key, v⟩ := m
    have hlength := l.length_spread_cons level first
      ((Json.quoted key).toList ++ ':' :: (l.afterColon ++ v.written l (level + 1)))
      (Json.written.ofMembers l (level + 1) ms)
    simp only [List.length_append, List.length_cons] at hlength
    rw [Json.written.ofMembers] at hbudget ⊢
    obtain ⟨budget, rfl⟩ := Nat.exists_eq_add_of_le' (show 3 ≤ budget by omega)
    have hread := hreads (key, v) List.mem_cons_self (level + 1) budget
      (l.spread level false (Json.written.ofMembers l (level + 1) ms) ++ '\x7d' :: rest)
      (by dsimp only; omega) (EndsNumber.spread ⟨rfl, by decide⟩ l level _)
    rw [← readValue_append l.isSpace_afterColon] at hread
    obtain ⟨cs, hcs, hkey⟩ := readString_quoted key (':' :: (l.afterColon ++
      (v.written l (level + 1) ++
        (l.spread level false (Json.written.ofMembers l (level + 1) ms) ++ '\x7d' :: rest))))
    rw [Layout.spread_cons_append, List.append_assoc, List.cons_append, List.append_assoc, hcs,
      readMembers_comma (l.isSpace_gap _), readMember_eq hkey hread (isLast_ofJson _),
      ih (fun n hn ↦ hreads n (List.mem_cons_of_mem _ hn)) (by omega)]
    rfl

end Draft

namespace Json

/-- **A written value is read with all numbers as their texts are.** -/
theorem Readable.writtenReads {v : Json} (h : v.Readable) (l : Layout) : v.WrittenReads l := by
  induction h with
  | null => exact fun _ _ _ _ _ ↦ Draft.readValue_cons rfl _ _
  | bool b => cases b <;> exact fun _ _ _ _ _ ↦ Draft.readValue_cons rfl _ _
  | number h => exact fun _ _ _ _ hrest ↦ h.readValue_append _ hrest
  | string s =>
    intro level budget rest _ _
    obtain ⟨cs, hcs, hread⟩ := Draft.readString_quoted s rest
    rw [written_string, hcs]
    refine (Draft.readValue_cons rfl _ _).trans ?_
    rw [if_pos rfl, hread]
    rfl
  | @array xs h ih =>
    intro level budget rest hbudget _
    rw [written_array, List.length_cons, List.length_append] at hbudget
    rw [written_array, List.cons_append, List.append_assoc, reread_array]
    refine (Draft.readValue_cons rfl _ _).trans ?_
    change ((.array _ _, _) : Draft × List Char) = _
    rw [List.singleton_append, Draft.readItems_spread h ih (by omega)]
    rfl
  | @object ms _ ih =>
    intro level budget rest hbudget _
    rw [written_object, List.length_cons, List.length_append] at hbudget
    rw [written_object, List.cons_append, List.append_assoc, reread_object]
    refine (Draft.readValue_cons rfl _ _).trans ?_
    change ((.object _ _, _) : Draft × List Char) = _
    rw [List.singleton_append, Draft.readMembers_spread ih (by omega)]
    rfl

theorem Readable.ofText_eq {v : Json} (h : v.Readable) {l : Layout} {text : String}
    (htext : text.toList = v.written l 0) : Draft.ofText text = (.ofJson v.reread, .ok ()) := by
  have hread := h.writtenReads l 0 (4 * text.toList.length + 3) [] (by rw [← htext]; omega) trivial
  rw [List.append_nil, ← htext] at hread
  exact Draft.ofText_eq hread

/-- The texts of a value. -/
def texts (v : Json) : List String := [v.compact, v.pretty]

theorem Readable.ofText_of_mem_texts {v : Json} (h : v.Readable) {text : String}
    (htext : text ∈ v.texts) : Draft.ofText text = (.ofJson v.reread, .ok ()) := by
  simp only [texts, List.mem_cons, List.not_mem_nil, or_false] at htext
  rcases htext with rfl | rfl
  · exact h.ofText_eq (toList_compact v 0)
  · exact h.ofText_eq (toList_prettyAt v 0)

/-- A legible value is read as it was. -/
theorem Legible.ofText_of_mem_texts {v : Json} (h : v.Legible) {text : String}
    (htext : text ∈ v.texts) : Draft.ofText text = (.ofJson v, .ok ()) := by
  obtain ⟨hreadable, heq⟩ := h.readable_and_reread_eq
  rw [hreadable.ofText_of_mem_texts htext, heq]

theorem depth_reread (v : Json) : v.reread.depth = v.depth := by
  induction v using ind with
  | null | bool | number | string => rfl
  | array xs ih =>
    rw [reread_array, depth, depth, Nat.add_right_cancel_iff]
    refine eq_of_forall_ge_iff fun n ↦ ?_
    rw [depthOfItems_le_iff, depthOfItems_le_iff, List.forall_mem_map]
    exact forall₂_congr fun x hx ↦ by rw [ih x hx]
  | object ms ih =>
    rw [reread_object, depth, depth, Nat.add_right_cancel_iff]
    refine eq_of_forall_ge_iff fun n ↦ ?_
    simp only [depthOfMembers_le_iff, List.forall_mem_map]
    exact forall₂_congr fun m hm ↦ by rw [rereadMember, ih m hm]

end Json

/-- **What is read from a value is read from the texts of another one that is reread as it**, if
these are not nested too deeply. -/
theorem Decoder.Reads.ofText?_reread {α : Type} {decode : Decoder α} {v w : Json} {a : α}
    (h : decode.Reads v a) (hw : w.reread.Rearranges v) (hreadable : w.Readable) {text : String}
    (htext : text ∈ w.texts) : decode.ofText? text =
      if w.depth ≤ Standing.textRoom then .ok a else .error (.syntaxFault .tooDeep) := by
  rw [ofText?, hreadable.ofText_of_mem_texts htext]
  dsimp only
  rw [h _ hw, Standing.permit, Json.depth_reread]
  split <;> rfl

/-- **What is read from a value is read from its texts**, if it is not nested too deeply. -/
theorem Decoder.Reads.ofText?_eq {α : Type} {decode : Decoder α} {v w : Json} {a : α}
    (h : decode.Reads v a) (hw : w.Rearranges v) (hlegible : w.Legible) {text : String}
    (htext : text ∈ w.texts) : decode.ofText? text =
      if w.depth ≤ Standing.textRoom then .ok a else .error (.syntaxFault .tooDeep) := by
  obtain ⟨hreadable, heq⟩ := hlegible.readable_and_reread_eq
  exact h.ofText?_reread (heq.symm ▸ hw) hreadable htext

end MappingGraph
