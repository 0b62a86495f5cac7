import MappingGraph.Constant
import MappingGraph.Proofs.Expr.Atoms
import MappingGraph.Proofs.Text.Blank
import MappingGraph.Proofs.Text.Numeral
import Mathlib.Tactic.SplitIfs

/-!
# The value of a constant

`Constant.Denotes` says, type by type, which value the settings of a constant describe.  There is at
most one, and where there is one the constant is read as that value (`Constant.parse?_of_denotes`);
where there is none it is not read.  A value is written down with literals only, and `Expr.value?`
reads such an expression back.
-/

set_option autoImplicit false

namespace MappingGraph

/-! ## Expressions that write down a value -/

namespace Expr

variable {ρ : Type} {e : Expr ρ} {v : Json}

/-- The value that literals, and arrays and objects of them, write down. -/
def value? : Expr ρ → Option Json
  | literal value _ => some value
  | array elements => (ofList? elements).map .array
  | object entries => (ofEntries? entries).map .object
  | _ => none
where
  ofList? : List (Expr ρ) → Option (List Json)
    | [] => some []
    | x :: xs => do return (← x.value?) :: (← ofList? xs)
  ofEntries? : List (String × Expr ρ) → Option Members
    | [] => some []
    | (k, x) :: es => do return (k, ← x.value?) :: (← ofEntries? es)

theorem exists_value?_of_ofList? {xs : List (Expr ρ)} {vs : List Json}
    (h : value?.ofList? xs = some vs) : ∀ x ∈ xs, ∃ w, x.value? = some w := by
  induction xs generalizing vs with
  | nil => exact fun x hx ↦ absurd hx List.not_mem_nil
  | cons x xs ih =>
    obtain ⟨w, hw, ws, hws, -⟩ : ∃ w, x.value? = some w ∧ ∃ ws, value?.ofList? xs = some ws ∧
        some (w :: ws) = some vs := by
      simpa [value?.ofList?, Option.bind_eq_some_iff] using h
    exact List.forall_mem_cons.mpr ⟨⟨w, hw⟩, ih hws⟩

theorem exists_value?_of_ofEntries? {es : List (String × Expr ρ)} {ms : Members}
    (h : value?.ofEntries? es = some ms) : ∀ p ∈ es, ∃ w, p.2.value? = some w := by
  induction es generalizing ms with
  | nil => exact fun p hp ↦ absurd hp List.not_mem_nil
  | cons p es ih =>
    obtain ⟨w, hw, ws, hws, -⟩ : ∃ w, p.2.value? = some w ∧
        ∃ ws, value?.ofEntries? es = some ws ∧ some ((p.1, w) :: ws) = some ms := by
      simpa [value?.ofEntries?, Option.bind_eq_some_iff] using h
    exact List.forall_mem_cons.mpr ⟨⟨w, hw⟩, ih hws⟩

/-- Nothing but literals: no reference, no field and no call. -/
structure OfLiterals (e : Expr ρ) : Prop where
  refs : e.refs = []
  atoms : ∀ a ∈ e.atoms, ∃ value type, a = .literal value type

/-- Elements and entries are put together in the same way. -/
theorem flatMap_of_ofLiterals {α : Type} (xs : List α) (part : α → Expr ρ)
    (h : ∀ x ∈ xs, (part x).OfLiterals) : (xs.flatMap fun x ↦ (part x).refs) = [] ∧
      ∀ a ∈ xs.flatMap fun x ↦ (part x).atoms, ∃ value type, a = .literal value type := by
  refine ⟨List.flatMap_eq_nil_iff.mpr fun x hx ↦ (h x hx).refs, fun a ha ↦ ?_⟩
  obtain ⟨x, hx, ha⟩ := List.mem_flatMap.mp ha
  exact (h x hx).atoms a ha

/-- **What writes down a value** is made of literals. -/
theorem ofLiterals_of_value? (h : e.value? = some v) : e.OfLiterals := by
  induction e using ind generalizing v with
  | literal value type => exact ⟨rfl, fun a ha ↦ ⟨value, type, List.mem_singleton.mp ha⟩⟩
  | array xs ih =>
    obtain ⟨vs, hvs, -⟩ := Option.map_eq_some_iff.mp h
    have hparts := flatMap_of_ofLiterals xs id fun x hx ↦
      (exists_value?_of_ofList? hvs x hx).elim fun w hw ↦ ih x hx hw
    constructor
    · rw [refs, refsOfList_eq_flatMap]
      exact hparts.1
    · rw [atoms, atomsOfList_eq_flatMap]
      exact hparts.2
  | object es ih =>
    obtain ⟨ms, hms, -⟩ := Option.map_eq_some_iff.mp h
    have hparts := flatMap_of_ofLiterals es Prod.snd fun p hp ↦
      (exists_value?_of_ofEntries? hms p hp).elim fun w hw ↦ ih p hp hw
    constructor
    · rw [refs, refsOfEntries_eq_flatMap]
      exact hparts.1
    · rw [atoms, atomsOfEntries_eq_flatMap]
      exact hparts.2
  | _ => cases h

end Expr

namespace Constant

variable {ρ : Type} {config v w : Json} {type : String}

@[simp] theorem value?_arrayOf (xs : List Json) :
    (arrayOf xs : Expr ρ).value? = some (.array xs) := by
  have hxs : Expr.value?.ofList? (xs.map Expr.ofJson : List (Expr ρ)) = some xs := by
    induction xs with
    | nil => rfl
    | cons x xs ih => simp [Expr.value?.ofList?, Expr.ofJson, Expr.value?, ih]
  rw [arrayOf, Expr.value?, hxs, Option.map_some]

@[simp] theorem value?_objectOf (ms : Members) :
    (objectOf ms : Expr ρ).value? = some (.object ms) := by
  have hms : Expr.value?.ofEntries?
      (ms.map fun m ↦ (m.1, Expr.ofJson m.2) : List (String × Expr ρ)) = some ms := by
    induction ms with
    | nil => rfl
    | cons m ms ih =>
      rw [List.map_cons, Expr.value?.ofEntries?, ih]
      rfl
  exact congrArg (Option.map Json.object) hms

/-! ## The value that settings describe -/

/-- The type that settings declare, a string if they declare none. -/
inductive Declares (config : Json) : String → Prop
  | named {type : String} (h : config.get? "valueType" = some (.string type)) : Declares config type
  | unnamed (h : ∀ type, config.get? "valueType" ≠ some (.string type)) : Declares config "string"

theorem declares_iff : Declares config type ↔ declaredType config = type := by
  have hread : ∀ {type : String}, config.getString? "valueType" = some type ↔
      config.get? "valueType" = some (.string type) := fun {type} ↦ by
    rw [Json.getString?, Option.bind_eq_some_iff]
    constructor
    · rintro ⟨v, hv, h⟩
      cases v with
      | string s => exact (Option.some.inj h) ▸ hv
      | _ => cases h
    · exact fun h ↦ ⟨_, h, rfl⟩
  rw [declaredType]
  constructor
  · intro h
    cases h with
    | named h => rw [hread.mpr h, Option.getD_some]
    | unnamed h =>
      have hnone := Option.eq_none_iff_forall_ne_some.mpr fun type ht ↦ h type (hread.mp ht)
      rw [hnone, Option.getD_none]
  · intro h
    cases hs : config.getString? "valueType" with
    | none =>
      rw [hs, Option.getD_none] at h
      exact h ▸ .unnamed fun t ht ↦ by simp [hread.mpr ht] at hs
    | some t =>
      rw [hs, Option.getD_some] at h
      exact h ▸ .named (hread.mp hs)

/-- The word is given, whatever its case and with blanks around it or not. -/
def GivesWord (v : Json) (word : String) : Prop :=
  Text.Spells word (Text.trim (rawText v)).toList

/-- The integer is given as such or in digits, and has 64 bits with its sign. -/
def GivesInteger (v : Json) (i : Int) : Prop :=
  (v = .number (.integer i) ∨ (∀ n, v ≠ .number n) ∧ Text.Numeral (Text.trim (rawText v)).toList i) ∧
    Number.minInteger ≤ i ∧ i ≤ Number.maxSigned

/-- The number is given as such or read from the text. -/
def GivesNumber (v : Json) (n : Number) : Prop :=
  v = .number n ∨ (∀ m, v ≠ .number m) ∧
    ∃ x, Binary64.ofText? (Text.trim (rawText v)) = some x ∧ .fractional x = n

/-- The value is given as such or written in JSON. -/
def Gives (v w : Json) : Prop := v = w ∨ ∃ s, v = .string s ∧ Json.ofText? s = .ok w

/-- The value that the settings of a constant describe. -/
inductive Denotes (config : Json) : Json → Prop
  | string (h : Declares config "string") : Denotes config (.string (rawText (given config)))
  | null (h : Declares config "null") : Denotes config .null
  | true (h : Declares config "boolean") (hv : GivesWord (given config) "true") :
    Denotes config (.bool true)
  | false (h : Declares config "boolean") (hv : GivesWord (given config) "false") :
    Denotes config (.bool false)
  | integer {i : Int} (h : Declares config "integer") (hv : GivesInteger (given config) i) :
    Denotes config (.number (.integer i))
  | number {n : Number} (h : Declares config "number") (hv : GivesNumber (given config) n) :
    Denotes config (.number n)
  | array {xs : List Json} (h : Declares config "array") (hv : Gives (given config) (.array xs)) :
    Denotes config (.array xs)
  | object {ms : Members} (h : Declares config "object") (hv : Gives (given config) (.object ms)) :
    Denotes config (.object ms)
  /-- An object may also be given as an array. -/
  | list {xs : List Json} (h : Declares config "object") (hv : Gives (given config) (.array xs)) :
    Denotes config (.array xs)

/-! ## Readings -/

theorem givesWord_iff {word : String} (h : ∀ w ∈ word.toList, w.isLower = true) :
    GivesWord v word ↔ (Text.trimChars (rawText v).toList).map Char.toLower = word.toList := by
  rw [GivesWord, Text.spells_iff h, Text.trim, String.toList_ofList]

theorem boolean?_eq_some_iff {b : Bool} :
    boolean? v = some b ↔ GivesWord v (if b then "true" else "false") := by
  have hlower : ∀ w ∈ (if b then "true" else "false").toList, w.isLower = true := by
    cases b <;> exact List.all_eq_true.mp rfl
  have hne : "true".toList ≠ "false".toList := by decide
  rw [givesWord_iff hlower]
  cases v with
  | bool b' =>
    have hspelt : (Text.trimChars (rawText (.bool b')).toList).map Char.toLower =
        (if b' then "true" else "false").toList := by
      cases b' <;> rfl
    rw [boolean?, hspelt, Option.some.injEq]
    cases b <;> cases b'
    · exact iff_of_true rfl rfl
    · exact iff_of_false Bool.noConfusion hne
    · exact iff_of_false Bool.noConfusion hne.symm
    · exact iff_of_true rfl rfl
  | _ =>
    rw [boolean?]
    · generalize (Text.trimChars (rawText _).toList).map Char.toLower = letters
      by_cases htrue : letters = "true".toList
      · rw [if_pos htrue, htrue]
        cases b
        · exact iff_of_false (by decide) hne
        · exact iff_of_true rfl rfl
      · rw [if_neg htrue, Option.ite_none_right_eq_some]
        cases b
        · exact and_iff_left rfl
        · exact iff_of_false (by simp) htrue
    · exact fun _ ↦ Json.noConfusion

theorem toSigned?_eq_some_iff {n : Number} {i : Int} :
    n.toSigned? = some i ↔ n = .integer i ∧ Number.minInteger ≤ i ∧ i ≤ Number.maxSigned := by
  cases n with
  | fractional x => exact iff_of_false nofun fun h ↦ by cases h.1
  | integer j =>
    rw [Number.toSigned?, Option.ite_none_right_eq_some, Bool.and_eq_true, decide_eq_true_iff,
      decide_eq_true_iff, Option.some.injEq, Number.integer.injEq]
    constructor
    · rintro ⟨hrange, rfl⟩
      exact ⟨rfl, hrange⟩
    · rintro ⟨rfl, hrange⟩
      exact ⟨hrange, rfl⟩

theorem integer?_eq_some_iff {i : Int} : integer? v = some i ↔ GivesInteger v i := by
  cases v with
  | number n =>
    have hgiven : ∀ p : Prop, (Json.number n = .number (.integer i) ∨
        (∀ m, Json.number n ≠ .number m) ∧ p) ↔ n = .integer i := by
      simp
    rw [integer?, toSigned?_eq_some_iff, GivesInteger, hgiven]
  | _ => rw [integer?, Text.integerWithin?_eq_some_iff, GivesInteger] <;> simp

theorem number?_eq_some_iff {n : Number} : number? v = some n ↔ GivesNumber v n := by
  cases v with
  | number m => simp [number?, GivesNumber]
  | _ => rw [number?, Option.map_eq_some_iff, GivesNumber] <;> simp

theorem structured?_eq_some_iff (hw : (∃ xs, w = .array xs) ∨ ∃ ms, w = .object ms) :
    structured? v = some w ↔ Gives v w := by
  have hscalar : ∀ u, (∀ xs, u ≠ Json.array xs) → (∀ ms, u ≠ Json.object ms) → u ≠ w := by
    rintro u hxs hms rfl
    exact hw.elim (fun ⟨xs, h⟩ ↦ hxs xs h) fun ⟨ms, h⟩ ↦ hms ms h
  cases v with
  | string s =>
    have hs := hscalar (.string s) nofun nofun
    rw [structured?, Gives, or_iff_right hs]
    cases hread : Json.ofText? s <;> simp [hread, Except.toOption]
  | array | object => simp [structured?, Gives]
  | _ => exact iff_of_false nofun fun h ↦ h.elim (hscalar _ nofun nofun) nofun

/-! ## Reading the settings -/

/-- How a constant of the type is written down. -/
def written (type : String) : Json → Expr ρ
  | .array xs => arrayOf xs
  | .object ms => objectOf ms
  | v => .literal v (if type = "number" then .number else LiteralType.of v)

theorem value?_written (type : String) (v : Json) :
    (written type v : Expr ρ).value? = some v := by
  cases v with
  | array xs => exact value?_arrayOf xs
  | object ms => exact value?_objectOf ms
  | _ => rfl

/-- **Whatever the settings describe is read**, and written down. -/
theorem parse?_of_denotes (h : Denotes config v) :
    parse? config = .ok (written (declaredType config) v : Expr ρ) := by
  cases h with
  | string h | null h => rw [parse?, declares_iff.mp h]; rfl
  | true h hv =>
    rw [parse?, declares_iff.mp h, (boolean?_eq_some_iff (b := Bool.true)).mpr hv]; rfl
  | false h hv =>
    rw [parse?, declares_iff.mp h, (boolean?_eq_some_iff (b := Bool.false)).mpr hv]; rfl
  | integer h hv => rw [parse?, declares_iff.mp h, integer?_eq_some_iff.mpr hv]; rfl
  | number h hv => rw [parse?, declares_iff.mp h, number?_eq_some_iff.mpr hv]; rfl
  | array h hv | list h hv =>
    rw [parse?, declares_iff.mp h, (structured?_eq_some_iff (.inl ⟨_, rfl⟩)).mpr hv]; rfl
  | object h hv =>
    rw [parse?, declares_iff.mp h, (structured?_eq_some_iff (.inr ⟨_, rfl⟩)).mpr hv]; rfl

/-- Nothing else is read. -/
theorem exists_denotes_of_parse? {e : Expr ρ} (h : parse? config = .ok e) :
    ∃ v, Denotes config v ∧ written (declaredType config) v = e := by
  rw [parse?] at h
  split_ifs at h with hs hn hb hi hf ha ho
  · exact ⟨_, .string (declares_iff.mpr hs), hs ▸ Except.ok.inj h⟩
  · exact ⟨_, .null (declares_iff.mpr hn), hn ▸ Except.ok.inj h⟩
  -- each of the other readings may fail
  · cases hv : boolean? (given config) with
    | none => rw [hv] at h; cases h
    | some b =>
      rw [hv] at h
      have hword := boolean?_eq_some_iff.mp hv
      cases b with
      | true => exact ⟨_, .true (declares_iff.mpr hb) hword, hb ▸ Except.ok.inj h⟩
      | false => exact ⟨_, .false (declares_iff.mpr hb) hword, hb ▸ Except.ok.inj h⟩
  · cases hv : integer? (given config) with
    | none => rw [hv] at h; cases h
    | some i =>
      rw [hv] at h
      exact ⟨_, .integer (declares_iff.mpr hi) (integer?_eq_some_iff.mp hv),
        hi ▸ Except.ok.inj h⟩
  · cases hv : number? (given config) with
    | none => rw [hv] at h; cases h
    | some n =>
      rw [hv] at h
      exact ⟨_, .number (declares_iff.mpr hf) (number?_eq_some_iff.mp hv), hf ▸ Except.ok.inj h⟩
  · cases hv : structured? (given config) with
    | none => rw [hv] at h; cases h
    | some v =>
      rw [hv] at h
      cases v with
      | array xs =>
        have hgives := (structured?_eq_some_iff (.inl ⟨xs, rfl⟩)).mp hv
        exact ⟨_, .array (declares_iff.mpr ha) hgives, Except.ok.inj h⟩
      | _ => cases h
  · cases hv : structured? (given config) with
    | none => rw [hv] at h; cases h
    | some v =>
      rw [hv] at h
      cases v with
      | array xs =>
        have hgives := (structured?_eq_some_iff (.inl ⟨xs, rfl⟩)).mp hv
        exact ⟨_, .list (declares_iff.mpr ho) hgives, Except.ok.inj h⟩
      | object ms =>
        have hgives := (structured?_eq_some_iff (.inr ⟨ms, rfl⟩)).mp hv
        exact ⟨_, .object (declares_iff.mpr ho) hgives, Except.ok.inj h⟩
      | _ => cases h

/-- There is one value at most that settings describe. -/
theorem Denotes.unique (hv : Denotes config v) (hw : Denotes config w) : v = w := by
  have hparse := (parse?_of_denotes (ρ := String) hv).symm.trans (parse?_of_denotes hw)
  have heq := congrArg Expr.value? (Except.ok.inj hparse)
  rw [value?_written, value?_written] at heq
  exact Option.some.inj heq

end Constant

end MappingGraph
