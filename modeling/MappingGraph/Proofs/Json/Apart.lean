import MappingGraph.Proofs.Json.Written

/-!
# Values that their texts tell apart

If two values have the same text, are they the same value?  For objects and arrays this comes down
to their parts: `Json.tells_object` and `Json.tells_array` say that the texts of the parts can be
read off the text of the whole.

Reading the text back would show this too, but only where all numbers are legible
(`Json.Legible.tells`), and nothing should be asked of numbers here but that their texts differ.  So
the parts are found without being read.  A `Scan` follows a text and keeps track of the brackets
that are open and of whether it is inside a string.  The text of a value takes it back to where it
was (`Scan.passes_written`), and a comma or a closing bracket that belongs to the value around stops
it.  As the scan is determined by the text, so is the place where a value ends
(`Scan.Passes.unique`).
-/

set_option autoImplicit false

namespace MappingGraph

/-! ## Following a text -/

/-- What a character of a text is part of. -/
inductive ScanMode where
  | plain
  | quoted
  /-- The character after a backslash. -/
  | escape

/-- Where in a text one is. -/
structure Scan where
  /-- The brackets that are open. -/
  depth : Nat
  mode : ScanMode

namespace Scan

/-- Goes on by a character; none if it is a comma or a closing bracket outside of all brackets. -/
def step (s : Scan) (c : Char) : Option Scan :=
  match s.mode with
  | .escape => some ⟨s.depth, .quoted⟩
  | .quoted =>
    some ⟨s.depth, if c = '\\' then .escape else if c = '"' then .plain else .quoted⟩
  | .plain =>
    if c = '"' then some ⟨s.depth, .quoted⟩
    else if c = '[' ∨ c = '\x7b' then some ⟨s.depth + 1, .plain⟩
    else if c = ']' ∨ c = '\x7d' then
      match s.depth with
      | 0 => none
      | depth + 1 => some ⟨depth, .plain⟩
    else if c = ',' ∧ s.depth = 0 then none
    else some s

/-- Goes on by a text. -/
def run (s : Scan) (cs : List Char) : Option Scan := cs.foldlM step s

variable {s t u : Scan} {cs ds as bs : List Char} {c d : Char} {depth level : Nat}

theorem run_append (s : Scan) (cs ds : List Char) :
    s.run (cs ++ ds) = (s.run cs).bind (·.run ds) :=
  List.foldlM_append

theorem run_cons (s : Scan) (c : Char) (cs : List Char) :
    s.run (c :: cs) = (s.step c).bind (·.run cs) :=
  List.foldlM_cons

/-- The text takes a scan outside of strings back to where it was. -/
def Passes (cs : List Char) : Prop := ∀ depth, run ⟨depth, .plain⟩ cs = some ⟨depth, .plain⟩

/-- The same inside of brackets. -/
def PassesInside (cs : List Char) : Prop :=
  ∀ depth, run ⟨depth + 1, .plain⟩ cs = some ⟨depth + 1, .plain⟩

theorem Passes.inside (h : Passes cs) : PassesInside cs := fun depth ↦ h (depth + 1)

theorem Passes.append (hcs : Passes cs) (hds : Passes ds) : Passes (cs ++ ds) := fun depth ↦ by
  rw [run_append, hcs, Option.bind_some, hds]

theorem PassesInside.append (hcs : PassesInside cs) (hds : PassesInside ds) :
    PassesInside (cs ++ ds) := fun depth ↦ by
  rw [run_append, hcs, Option.bind_some, hds]

theorem passes_nil : Passes [] := fun _ ↦ rfl

theorem PassesInside.brackets (h : PassesInside cs) : Passes ('[' :: (cs ++ [']'])) :=
  fun depth ↦ by
    rw [run_cons]
    change run ⟨depth + 1, .plain⟩ (cs ++ [']']) = _
    rw [run_append, h, Option.bind_some]
    rfl

theorem PassesInside.braces (h : PassesInside cs) : Passes ('\x7b' :: (cs ++ ['\x7d'])) :=
  fun depth ↦ by
    rw [run_cons]
    change run ⟨depth + 1, .plain⟩ (cs ++ ['\x7d']) = _
    rw [run_append, h, Option.bind_some]
    rfl

/-! ## Values -/

theorem digitChar_ne : ∀ n < 0x20, Nat.digitChar (n / 16) ≠ '\\' ∧ Nat.digitChar (n / 16) ≠ '"' ∧
    Nat.digitChar (n % 16) ≠ '\\' ∧ Nat.digitChar (n % 16) ≠ '"' := by
  decide

/-- A character inside a string does not end it. -/
theorem run_escaped (depth : Nat) (c : Char) :
    run ⟨depth, .quoted⟩ (Json.escaped c) = some ⟨depth, .quoted⟩ := by
  rw [Json.escaped]
  split_ifs with hquote hslash hb hf hn hr ht hcontrol
  iterate 7 rfl
  · obtain ⟨h₁, h₂, h₃, h₄⟩ := digitChar_ne _ hcontrol
    simp [run, step, h₁, h₂, h₃, h₄]
  · simp [run, step, hquote, hslash]

theorem run_flatMap_escaped (depth : Nat) (cs : List Char) :
    run ⟨depth, .quoted⟩ (cs.flatMap Json.escaped) = some ⟨depth, .quoted⟩ := by
  induction cs with
  | nil => rfl
  | cons c cs ih => rw [List.flatMap_cons, run_append, run_escaped, Option.bind_some, ih]

theorem passes_quoted (text : String) : Passes (Json.quoted text).toList := fun depth ↦ by
  rw [Json.quoted, String.toList_ofList, List.cons_append, run_cons]
  change run ⟨depth, .quoted⟩ _ = _
  rw [run_append, run_flatMap_escaped, Option.bind_some]
  rfl

theorem passes_singleton (h : c ∉ ['"', '[', '\x7b', ']', '\x7d', ',']) : Passes [c] :=
  fun depth ↦ by
    simp only [List.mem_cons, List.not_mem_nil, or_false, not_or] at h
    simp [run, step, h]

theorem passes_of_all_isNumeral (h : cs.all isNumeral = true) : Passes cs := by
  induction cs with
  | nil => exact passes_nil
  | cons c cs ih =>
    rw [List.all_cons, Bool.and_eq_true] at h
    have hc : Passes [c] := passes_singleton fun hmem ↦ by
      simp only [List.mem_cons, List.not_mem_nil, or_false] at hmem
      rcases hmem with rfl | rfl | rfl | rfl | rfl | rfl <;> exact absurd h.1 (by decide)
    exact hc.append (ih h.2)

theorem passesInside_spread {parts : List (List Char)} (h : ∀ part ∈ parts, Passes part)
    (first : Bool) : PassesInside (Layout.compact.spread level first parts) := by
  induction parts generalizing first with
  | nil => cases first <;> exact passes_nil.inside
  | cons part parts ih =>
    obtain ⟨hpart, hparts⟩ := List.forall_mem_cons.mp h
    have hrest := hpart.inside.append (ih hparts false)
    cases first with
    | true => exact hrest
    | false =>
      have hcomma : PassesInside [','] := fun _ ↦ rfl
      exact hcomma.append hrest

theorem ofItems_eq_map (xs : List Json) :
    Json.written.ofItems .compact level xs = xs.map (Json.written .compact level) := by
  induction xs with
  | nil => rfl
  | cons x xs ih => rw [Json.written.ofItems, ih, List.map_cons]

/-- A written member. -/
def member (level : Nat) (m : String × Json) : List Char :=
  (Json.quoted m.1).toList ++ ':' :: m.2.written .compact level

theorem ofMembers_eq_map (ms : Members) :
    Json.written.ofMembers .compact level ms = ms.map (member level) := by
  induction ms with
  | nil => rfl
  | cons m ms ih => rw [Json.written.ofMembers, ih, List.map_cons]; rfl

theorem passes_member {m : String × Json} (h : Passes (m.2.written .compact level)) :
    Passes (member level m) :=
  (passes_quoted m.1).append ((passes_singleton (c := ':') (by decide)).append h)

/-- **The text of a value takes a scan back to where it was.** -/
theorem passes_written (v : Json) (level : Nat) : Passes (v.written .compact level) := by
  induction v using Json.ind generalizing level with
  | null => exact fun _ ↦ rfl
  | bool b => cases b <;> exact fun _ ↦ rfl
  | number n => exact passes_of_all_isNumeral n.all_isNumeral_text
  | string text => exact passes_quoted text
  | array xs ih =>
    rw [Json.written_array, ofItems_eq_map]
    exact (passesInside_spread (List.forall_mem_map.mpr fun x hx ↦ ih x hx _) _).brackets
  | object ms ih =>
    rw [Json.written_object, ofMembers_eq_map]
    exact (passesInside_spread (List.forall_mem_map.mpr fun m hm ↦ passes_member (ih m hm _))
      _).braces

/-! ## Where a value ends -/

/-- A scan is determined by the text, and with it the place where it stops. -/
theorem unique (hcs : s.run cs = some t) (hc : t.step c = none) (hds : s.run ds = some u)
    (hd : u.step d = none) (h : cs ++ c :: as = ds ++ d :: bs) : cs = ds ∧ c :: as = d :: bs := by
  induction cs generalizing s ds with
  | nil =>
    cases ds with
    | nil => exact ⟨rfl, h⟩
    | cons x ds =>
      obtain ⟨rfl, _⟩ := List.cons.inj h
      cases hcs
      rw [run_cons, hc] at hds
      cases hds
  | cons x cs ih =>
    cases ds with
    | nil =>
      obtain ⟨rfl, _⟩ := List.cons.inj h
      cases hds
      rw [run_cons, hd] at hcs
      cases hcs
    | cons y ds =>
      obtain ⟨rfl, htail⟩ := List.cons.inj h
      rw [run_cons] at hcs hds
      cases hstep : s.step x with
      | none =>
        rw [hstep] at hcs
        cases hcs
      | some next =>
        rw [hstep] at hcs hds
        obtain ⟨rfl, hrest⟩ := ih hcs hds htail
        exact ⟨rfl, hrest⟩

/-- The character ends the text of a value. -/
def Stops (c : Char) : Prop := step ⟨0, .plain⟩ c = none

/-- **The text of a value ends where the scan stops.** -/
theorem Passes.unique (hcs : Passes cs) (hds : Passes ds) (hc : Stops c) (hd : Stops d)
    (h : cs ++ c :: as = ds ++ d :: bs) : cs = ds ∧ c :: as = d :: bs :=
  Scan.unique (hcs 0) hc (hds 0) hd h

variable {parts parts' : List (List Char)}

/-- What follows a part begins with a comma or with the closing bracket. -/
theorem exists_stops (level : Nat) (hc : Stops c) (parts : List (List Char)) :
    ∃ x rest, Stops x ∧ Layout.compact.spread level false parts ++ [c] = x :: rest := by
  cases parts with
  | nil => exact ⟨c, [], hc, rfl⟩
  | cons part parts => exact ⟨',', _, rfl, rfl⟩

/-- Parts that follow others are determined by their text. -/
theorem eq_of_spread_false (level : Nat) (h : ∀ part ∈ parts, Passes part)
    (h' : ∀ part ∈ parts', Passes part) (hc : Stops c) (hcomma : c ≠ ',')
    (heq : Layout.compact.spread level false parts ++ [c] =
      Layout.compact.spread level false parts' ++ [c]) : parts = parts' := by
  induction parts generalizing parts' with
  | nil =>
    cases parts' with
    | nil => rfl
    | cons => exact absurd (List.cons.inj heq).1 hcomma
  | cons part parts ih =>
    cases parts' with
    | nil => exact absurd (List.cons.inj heq).1.symm hcomma
    | cons part' parts' =>
      obtain ⟨hpart, hparts⟩ := List.forall_mem_cons.mp h
      obtain ⟨hpart', hparts'⟩ := List.forall_mem_cons.mp h'
      obtain ⟨x, rest, hx, hrest⟩ := exists_stops level hc parts
      obtain ⟨x', rest', hx', hrest'⟩ := exists_stops level hc parts'
      have heq : part ++ x :: rest = part' ++ x' :: rest' := by
        rw [← hrest, ← hrest', ← List.append_assoc, ← List.append_assoc]
        exact (List.cons.inj heq).2
      obtain ⟨rfl, htail⟩ := hpart.unique hpart' hx hx' heq
      rw [ih hparts hparts' (hrest.trans (htail.trans hrest'.symm))]

/-- A part that is not empty does not look like no part. -/
theorem spread_cons_ne_nil {part : List Char} (hpart : Passes part) (hne : part ≠ [])
    (hc : Stops c) :
    Layout.compact.spread level true (part :: parts) ++ [c] ≠
      Layout.compact.spread level true [] ++ [c] := by
  intro heq
  obtain ⟨x, rest, hx, hrest⟩ := exists_stops level hc parts
  have heq : part ++ x :: rest = [] ++ [c] := by
    rw [← hrest, ← List.append_assoc]
    exact heq
  exact hne (hpart.unique passes_nil hx hc heq).1

/-- **The parts between two brackets are determined by the text.** -/
theorem eq_of_spread (h : ∀ part ∈ parts, Passes part ∧ part ≠ [])
    (h' : ∀ part ∈ parts', Passes part ∧ part ≠ []) (hc : Stops c) (hcomma : c ≠ ',')
    (heq : Layout.compact.spread level true parts ++ [c] =
      Layout.compact.spread level true parts' ++ [c]) : parts = parts' := by
  cases parts with
  | nil =>
    cases parts' with
    | nil => rfl
    | cons part' parts' =>
      obtain ⟨hpart', -⟩ := List.forall_mem_cons.mp h'
      exact absurd heq.symm (spread_cons_ne_nil hpart'.1 hpart'.2 hc)
  | cons part parts =>
    obtain ⟨hpart, hparts⟩ := List.forall_mem_cons.mp h
    cases parts' with
    | nil => exact absurd heq (spread_cons_ne_nil hpart.1 hpart.2 hc)
    | cons part' parts' =>
      obtain ⟨hpart', hparts'⟩ := List.forall_mem_cons.mp h'
      -- a comma in front makes them parts that follow others
      refine eq_of_spread_false level ?_ ?_ hc hcomma (congrArg (',' :: ·) heq)
      · exact List.forall_mem_cons.mpr ⟨hpart.1, fun p hp ↦ (hparts p hp).1⟩
      · exact List.forall_mem_cons.mpr ⟨hpart'.1, fun p hp ↦ (hparts' p hp).1⟩

end Scan

/-! ## Telling values apart -/

/-- Two lists that a function maps alike are the same, if it maps no item of the one like another
item of the other. -/
theorem eq_of_map_eq_map {α β : Type} {f : α → β} {xs ys : List α}
    (h : ∀ x ∈ xs, ∀ y ∈ ys, f x = f y → x = y) (heq : xs.map f = ys.map f) : xs = ys := by
  induction xs generalizing ys with
  | nil => exact (List.map_eq_nil_iff.mp heq.symm).symm
  | cons x xs ih =>
    cases ys with
    | nil => cases heq
    | cons y ys =>
      obtain ⟨hx, hxs⟩ := List.cons.inj heq
      rw [h x List.mem_cons_self y List.mem_cons_self hx, ih (fun a ha b hb ↦
        h a (List.mem_cons_of_mem x ha) b (List.mem_cons_of_mem y hb)) hxs]

namespace Json

variable {v w : Json} {xs ys : List Json} {ms ns : Members}

/-- The texts of the two values differ unless the values are the same. -/
def Tells (v w : Json) : Prop := v.compact = w.compact → v = w

theorem tells_iff (level : Nat) :
    v.Tells w ↔ (v.written .compact level = w.written .compact level → v = w) := by
  rw [Tells, ← toList_compact v level, ← toList_compact w level, String.toList_inj]

/-- What stands behind a string in quotes shows where it ends, and so which string it is. -/
theorem eq_of_quoted_append {s t : String} {as bs : List Char}
    (h : (quoted s).toList ++ as = (quoted t).toList ++ bs) : s = t ∧ as = bs := by
  obtain ⟨cs, hcs, hs⟩ := Draft.readString_quoted s as
  obtain ⟨ds, hds, ht⟩ := Draft.readString_quoted t bs
  rw [hcs, hds] at h
  rw [(List.cons.inj h).2, ht] at hs
  injection hs with hst hab
  exact ⟨hst.symm, hab.symm⟩

theorem tells_string (s t : String) : (string s).Tells (string t) := fun h ↦ by
  have hquoted : (quoted s).toList ++ [] = (quoted t).toList ++ [] :=
    congrArg (String.toList · ++ []) h
  rw [(eq_of_quoted_append hquoted).1]

/-- **Objects are told apart by their members.** -/
theorem tells_object (h : ∀ m ∈ ms, ∀ n ∈ ns, m.1 = n.1 → m.2.Tells n.2) :
    (object ms).Tells (object ns) := by
  rw [tells_iff 0, written_object, written_object, Scan.ofMembers_eq_map, Scan.ofMembers_eq_map]
  intro heq
  have hpasses (ls : Members) (part : List Char) (hpart : part ∈ ls.map (Scan.member (0 + 1))) :
      Scan.Passes part ∧ part ≠ [] := by
    obtain ⟨m, -, rfl⟩ := List.mem_map.mp hpart
    exact ⟨Scan.passes_member (Scan.passes_written m.2 _), by simp [Scan.member]⟩
  have hmap := Scan.eq_of_spread (c := '\x7d') (hpasses ms) (hpasses ns) rfl (by decide)
    (List.cons.inj heq).2
  refine congrArg object (eq_of_map_eq_map (fun m hm n hn hmn ↦ ?_) hmap)
  obtain ⟨hkey, hvalue⟩ := eq_of_quoted_append hmn
  exact Prod.ext hkey ((tells_iff _).mp (h m hm n hn hkey) (List.cons.inj hvalue).2)

theorem compact_object_ne_empty (ms : Members) : (object ms).compact ≠ "" := by
  rw [ne_eq, ← String.toList_inj, toList_compact _ 0, written_object]
  exact List.cons_ne_nil _ _

/-- **Arrays are told apart by their items**, if these have texts at all. -/
theorem tells_array (h : ∀ x ∈ xs, ∀ y ∈ ys, x.Tells y) (hxs : ∀ x ∈ xs, x.compact ≠ "")
    (hys : ∀ y ∈ ys, y.compact ≠ "") : (array xs).Tells (array ys) := by
  rw [tells_iff 0, written_array, written_array, Scan.ofItems_eq_map, Scan.ofItems_eq_map]
  intro heq
  have hpasses (zs : List Json) (hzs : ∀ z ∈ zs, z.compact ≠ "") (part : List Char)
      (hpart : part ∈ zs.map (written .compact (0 + 1))) : Scan.Passes part ∧ part ≠ [] := by
    obtain ⟨z, hz, rfl⟩ := List.mem_map.mp hpart
    refine ⟨Scan.passes_written z _, fun hnil ↦ hzs z hz ?_⟩
    rw [← String.toList_inj, toList_compact z, hnil, String.toList_empty]
  have hmap := Scan.eq_of_spread (c := ']') (hpasses xs hxs) (hpasses ys hys) rfl (by decide)
    (List.cons.inj heq).2
  exact congrArg array (eq_of_map_eq_map (fun x hx y hy ↦ (tells_iff _).mp (h x hx y hy)) hmap)

/-- Arrays of objects are told apart by these objects. -/
theorem tells_array_map {α : Type} {encode : α → Json} {as bs : List α}
    (h : ∀ a ∈ as, ∀ b ∈ bs, (encode a).Tells (encode b))
    (hobject : ∀ a, ∃ ms, encode a = object ms) :
    (array (as.map encode)).Tells (array (bs.map encode)) := by
  have hne (a : α) : (encode a).compact ≠ "" := by
    obtain ⟨ms, ha⟩ := hobject a
    rw [ha]
    exact compact_object_ne_empty ms
  refine tells_array ?_ (List.forall_mem_map.mpr fun a _ ↦ hne a)
    (List.forall_mem_map.mpr fun b _ ↦ hne b)
  exact List.forall_mem_map.mpr fun a ha ↦ List.forall_mem_map.mpr (h a ha)

/-- **Canonical values whose numbers are legible are told apart**: their texts are read back. -/
theorem Legible.tells (hv : v.Legible) (hw : w.Legible) (hcv : v.Canonical) (hcw : w.Canonical) :
    v.Tells w := by
  intro heq
  have hread : Draft.ofText v.compact = (.ofJson v, .ok ()) :=
    hv.ofText_of_mem_texts List.mem_cons_self
  rw [heq, hw.ofText_of_mem_texts List.mem_cons_self] at hread
  have hvalue := congrArg (Draft.value? .value) (Prod.mk.inj hread).1
  rw [Draft.value?_ofJson, Draft.value?_ofJson, sorted_of_canonical hcv,
    sorted_of_canonical hcw] at hvalue
  exact (Except.ok.inj hvalue).symm

end Json

end MappingGraph
