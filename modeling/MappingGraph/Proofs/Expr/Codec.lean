import MappingGraph.Expr.Codec
import MappingGraph.Proofs.Expr.Atoms
import MappingGraph.Proofs.Json.Record

/-!
# Reading an expression back

What is read from the JSON form of an expression is the expression itself, but for one thing: a call
whose settings are null is written with the member `config`, and is read as a call without settings.
`Expr.reread` is the expression as it comes back, `Expr.reads_toJson` says so, and
`Expr.reread_eq_self_iff` says that nothing else than null settings gets lost.
-/

set_option autoImplicit false

namespace MappingGraph

/-- The members of a reference can be put beside a tag, and the reference is read back from them. -/
class ReferenceFormat.Lawful (ρ : Type) [ReferenceFormat ρ] : Prop where
  distinct : ∀ r : ρ, (Json.object (members r)).Distinct
  type_notMem : ∀ r : ρ, "type" ∉ (members r).keys
  reads : ∀ r : ρ, Decoder.Reads (ReferenceFormat.decode (ρ := ρ)) (.object (members r)) r

instance : ReferenceFormat.Lawful Placeholder where
  distinct _ := .object (by simp [ReferenceFormat.members, Members.keys])
    (by simp [ReferenceFormat.members, Json.AllObjects.string])
  type_notMem _ := by simp [ReferenceFormat.members, Members.keys]
  reads r := (Fields.Gives.found rfl (Decoder.reads_string r.node) .nil).reads
    (by simp [Fields.keys]) (by simp [ReferenceFormat.members, Members.keys, Fields.keys])

instance : ReferenceFormat.Lawful SharedRef where
  distinct _ := .object (by simp [ReferenceFormat.members, Members.keys])
    (by simp [ReferenceFormat.members, Json.AllObjects.string])
  type_notMem _ := by simp [ReferenceFormat.members, Members.keys]
  reads r := (Fields.Gives.found rfl (Decoder.reads_string r.node)
    (.found rfl (Decoder.reads_string r.varName) .nil)).reads
    (by simp [Fields.keys]) (by simp [ReferenceFormat.members, Members.keys, Fields.keys])

namespace Atom

/-- The free values in the atom are canonical. -/
def Canonical : Atom → Prop
  | literal value _ => value.Canonical
  | field _ | call _ none => True
  | call _ (some config) => config.Canonical

/-- Whether the atom is a call and its settings are null. -/
def isNullCall : Atom → Bool
  | call _ (some config) => config.isNull
  | _ => false

end Atom

namespace Expr

variable {ρ : Type}

/-- The free values in the expression are canonical. -/
def Canonical (e : Expr ρ) : Prop := ∀ a ∈ e.atoms, a.Canonical

/-! ## What comes back -/

/-- The expression with the settings left out that are null. -/
def reread : Expr ρ → Expr ρ
  | literal value type => literal value type
  | field path => field path
  | binary op left right => binary op left.reread right.reread
  | unary op operand => unary op operand.reread
  | call function args config => call function (ofList args) (config.filter (!·.isNull))
  | conditional condition yes no => conditional condition.reread yes.reread no.reread
  | array elements => array (ofList elements)
  | object entries => object (ofEntries entries)
  | reference target => reference target
where
  ofList : List (Expr ρ) → List (Expr ρ)
    | [] => []
    | x :: xs => x.reread :: ofList xs
  ofEntries : List (String × Expr ρ) → List (String × Expr ρ)
    | [] => []
    | (key, x) :: es => (key, x.reread) :: ofEntries es

theorem rereadList_eq_map (xs : List (Expr ρ)) : reread.ofList xs = xs.map reread := by
  induction xs with
  | nil => rfl
  | cons x xs ih => rw [reread.ofList, ih, List.map_cons]

theorem rereadEntries_eq_map (es : List (String × Expr ρ)) :
    reread.ofEntries es = es.map fun p ↦ (p.1, p.2.reread) := by
  induction es with
  | nil => rfl
  | cons p es ih => rw [reread.ofEntries, ih, List.map_cons]

/-- **Only null settings get lost.** -/
theorem reread_eq_self_iff {e : Expr ρ} : e.reread = e ↔ ∀ a ∈ e.atoms, a.isNullCall = false := by
  induction e using ind with
  | literal | field | reference => simp [reread, atoms, Atom.isNullCall]
  | binary op l r ihl ihr =>
    simp only [reread, atoms, binary.injEq, true_and, ihl, ihr, List.forall_mem_append]
  | unary op x ih => simp only [reread, atoms, unary.injEq, true_and, ih]
  | conditional c y n ihc ihy ihn =>
    simp only [reread, atoms, conditional.injEq, ihc, ihy, ihn, List.forall_mem_append, and_assoc]
  | call fn args config ih =>
    have hconfig : config.filter (!·.isNull) = config ↔
        (Atom.call fn config).isNullCall = false := by
      rcases config with _ | (_ | _ | _ | _ | _ | _) <;> simp [Json.isNull, Atom.isNullCall]
    simp only [reread, atoms, call.injEq, true_and, rereadList_eq_map, atomsOfList_eq_flatMap,
      List.forall_mem_cons, hconfig, map_eq_self_iff, List.forall_mem_flatMap]
    exact and_comm.trans (and_congr_right fun _ ↦ forall₂_congr ih)
  | array xs ih =>
    simp only [reread, atoms, array.injEq, rereadList_eq_map, atomsOfList_eq_flatMap,
      map_eq_self_iff, List.forall_mem_flatMap]
    exact forall₂_congr ih
  | object es ih =>
    simp only [reread, atoms, object.injEq, rereadEntries_eq_map, atomsOfEntries_eq_flatMap,
      map_eq_self_iff, List.forall_mem_flatMap]
    exact forall₂_congr fun p hp ↦ by rw [← ih p hp, Prod.ext_iff]; exact and_iff_right rfl

/-! ## The JSON form -/

variable [ReferenceFormat ρ]

theorem listToJson_eq_map (xs : List (Expr ρ)) : toJson.listToJson xs = xs.map toJson := by
  induction xs with
  | nil => rfl
  | cons x xs ih => rw [toJson.listToJson, ih, List.map_cons]

/-- An entry of an object expression as JSON. -/
def entryToJson (p : String × Expr ρ) : Json :=
  .object [("key", .string p.1), ("value", p.2.toJson)]

theorem entriesToJson_eq_map (es : List (String × Expr ρ)) :
    toJson.entriesToJson es = es.map entryToJson := by
  induction es with
  | nil => rfl
  | cons p es ih => rw [toJson.entriesToJson, ih, List.map_cons, entryToJson]

section Reads

variable {budget : Nat}

/-- An object is read as the form that its tag names. -/
theorem reads_form {form : Form} {name : String} {ms : Members} {e : Expr ρ} {n : Nat}
    (hbudget : n < budget) (hname : Decoder.named Form.names name = .ok form)
    (hcontent : (decodeContent (decodeWithin (budget - 1)) form).Reads (.object ms) e)
    (htype : "type" ∉ ms.keys := by simp [Members.keys]) :
    (decodeWithin budget).Reads (.object (("type", .string name) :: ms)) e := by
  obtain ⟨budget, rfl⟩ := Nat.exists_eq_succ_of_ne_zero (Nat.ne_zero_of_lt hbudget)
  refine Decoder.reads_tagged rfl hname ?_
  have herase : Members.erase "type" (("type", .string name) :: ms) = ms :=
    (List.filter_cons_of_neg (by simp)).trans <| List.filter_eq_self.mpr fun m hm ↦
      decide_eq_true fun h ↦ htype (List.mem_map.mpr ⟨m, hm, h⟩)
  rwa [herase]

/-- The budget for what is inside of an object. -/
theorem depth_lt_pred {ms : Members} {m : String × Json} (h : (Json.object ms).depth < budget)
    (hm : m ∈ ms) : m.2.depth < budget - 1 :=
  Nat.lt_pred_of_succ_lt (Nat.lt_of_le_of_lt (Json.depth_lt_depth_object hm) h)

theorem reads_listToJson {xs : List (Expr ρ)}
    (ih : ∀ x ∈ xs, x.toJson.depth < budget → (decodeWithin budget).Reads x.toJson x.reread)
    (hbudget : (Json.array (toJson.listToJson xs)).depth < budget) :
    (Decoder.list (decodeWithin budget)).Reads (.array (toJson.listToJson xs))
      (reread.ofList xs) := by
  rw [listToJson_eq_map] at hbudget ⊢
  rw [rereadList_eq_map]
  exact Decoder.reads_list_map fun x hx ↦ ih x hx <|
    Nat.lt_trans (Json.depth_lt_depth_array (List.mem_map_of_mem hx)) hbudget

theorem reads_entriesToJson {es : List (String × Expr ρ)}
    (ih : ∀ p ∈ es, p.2.toJson.depth < budget → (decodeWithin budget).Reads p.2.toJson p.2.reread)
    (hbudget : (Json.array (toJson.entriesToJson es)).depth < budget) :
    (Decoder.list (decodeEntry (decodeWithin budget))).Reads (.array (toJson.entriesToJson es))
      (reread.ofEntries es) := by
  rw [entriesToJson_eq_map] at hbudget ⊢
  rw [rereadEntries_eq_map]
  refine Decoder.reads_list_map fun p hp ↦ ?_
  have hentry : (entryToJson p).depth < budget :=
    Nat.lt_trans (Json.depth_lt_depth_array (List.mem_map_of_mem hp)) hbudget
  have hp := ih p hp (Nat.lt_of_lt_of_le
    (depth_lt_pred (m := ("value", p.2.toJson)) hentry (by simp)) (Nat.sub_le budget 1))
  exact (Fields.Gives.found rfl (Decoder.reads_string p.1) (.found rfl hp .nil)).reads

/-- Settings are read back unless they are null. -/
theorem reads_settings {c : Json} (h : c.Canonical) :
    (Decoder.optional Decoder.json).Reads c ((some c).filter (!·.isNull)) := by
  by_cases hnull : c = .null
  · rw [hnull]
    exact Decoder.reads_optional_null
  · have hkept : (some c).filter (!·.isNull) = some c := by
      cases c with
      | null => exact absurd rfl hnull
      | _ => rfl
    rw [hkept]
    exact (Decoder.reads_json h).optional hnull

/-- **An expression is read back from its JSON form**, without null settings. -/
theorem reads_toJson [ReferenceFormat.Lawful ρ] {e : Expr ρ} (h : e.Canonical)
    (hbudget : e.toJson.depth < budget) : (decodeWithin budget).Reads e.toJson e.reread := by
  induction e using ind generalizing budget with
  | literal value type =>
    have hvalue : value.Canonical := h _ (List.mem_singleton_self _)
    exact reads_form hbudget rfl (Fields.Gives.found rfl (Decoder.reads_json hvalue)
      (.found rfl (Decoder.reads_choice (by cases type <;> rfl)) .nil)).reads
  | field path =>
    exact reads_form hbudget rfl (Fields.Gives.found rfl (Decoder.reads_string path) .nil).reads
  | binary op l r ihl ihr =>
    have hl := ihl (fun a ha ↦ h a (List.mem_append_left _ ha))
      (depth_lt_pred (m := ("left", l.toJson)) hbudget (by simp))
    have hr := ihr (fun a ha ↦ h a (List.mem_append_right _ ha))
      (depth_lt_pred (m := ("right", r.toJson)) hbudget (by simp))
    exact reads_form hbudget rfl (Fields.Gives.found rfl
      (Decoder.reads_choice (by cases op <;> rfl)) (.found rfl hl (.found rfl hr .nil))).reads
  | unary op x ih =>
    have hx := ih h (depth_lt_pred (m := ("operand", x.toJson)) hbudget (by simp))
    exact reads_form hbudget rfl (Fields.Gives.found rfl
      (Decoder.reads_choice (by cases op <;> rfl)) (.found rfl hx .nil)).reads
  | call fn args config ih =>
    have hargs := reads_listToJson
      (fun x hx ↦ ih x hx fun a ha ↦ h a (List.mem_cons_of_mem _ (mem_atomsOfList hx ha)))
      (depth_lt_pred (m := ("args", .array (toJson.listToJson args))) hbudget (by simp))
    cases config with
    | none =>
      exact reads_form hbudget rfl (Fields.Gives.found rfl (Decoder.reads_string fn)
        (.found rfl hargs (.absent rfl rfl .nil))).reads
    | some c =>
      have hc := reads_settings (h (.call fn (some c)) List.mem_cons_self)
      exact reads_form hbudget rfl (Fields.Gives.found rfl (Decoder.reads_string fn)
        (.found rfl hargs (.found rfl hc .nil))).reads
  | conditional c y n ihc ihy ihn =>
    have hc := ihc (fun a ha ↦ h a (List.mem_append_left _ (List.mem_append_left _ ha)))
      (depth_lt_pred (m := ("condition", c.toJson)) hbudget (by simp))
    have hy := ihy (fun a ha ↦ h a (List.mem_append_left _ (List.mem_append_right _ ha)))
      (depth_lt_pred (m := ("then", y.toJson)) hbudget (by simp))
    have hn := ihn (fun a ha ↦ h a (List.mem_append_right _ ha))
      (depth_lt_pred (m := ("else", n.toJson)) hbudget (by simp))
    exact reads_form hbudget rfl
      (Fields.Gives.found rfl hc (.found rfl hy (.found rfl hn .nil))).reads
  | array xs ih =>
    have hxs := reads_listToJson (fun x hx ↦ ih x hx fun a ha ↦ h a (mem_atomsOfList hx ha))
      (depth_lt_pred (m := ("elements", .array (toJson.listToJson xs))) hbudget (by simp))
    exact reads_form hbudget rfl (Fields.Gives.found rfl hxs .nil).reads
  | object es ih =>
    have hes := reads_entriesToJson (fun p hp ↦ ih p hp fun a ha ↦ h a (mem_atomsOfEntries hp ha))
      (depth_lt_pred (m := ("entries", .array (toJson.entriesToJson es))) hbudget (by simp))
    exact reads_form hbudget rfl (Fields.Gives.found rfl hes .nil).reads
  | reference r =>
    exact reads_form hbudget rfl ((ReferenceFormat.Lawful.reads r).map reference)
      (ReferenceFormat.Lawful.type_notMem r)

/-- The budget of `decode` is always enough. -/
theorem reads_decode [ReferenceFormat.Lawful ρ] {e : Expr ρ} (h : e.Canonical) :
    Decoder.Reads decode e.toJson e.reread := fun w hw s ↦ by
  rw [decode, Draft.depth_ofJson]
  exact reads_toJson h (hw.depth_eq ▸ Nat.lt_succ_self _) w hw s

end Reads

theorem distinct_listToJson {xs : List (Expr ρ)} (h : ∀ x ∈ xs, x.toJson.Distinct) :
    (Json.array (toJson.listToJson xs)).Distinct := by
  rw [listToJson_eq_map]
  exact .array (List.forall_mem_map.mpr h)

/-- No object of the JSON form has a key twice. -/
theorem distinct_toJson [ReferenceFormat.Lawful ρ] {e : Expr ρ} (h : e.Canonical) :
    e.toJson.Distinct := by
  induction e using ind with
  | literal value type =>
    have hvalue : value.Canonical := h _ (List.mem_singleton_self _)
    exact .object (by simp [Members.keys]) (by simp [hvalue.distinct, Json.AllObjects.string])
  | field path => exact .object (by simp [Members.keys]) (by simp [Json.AllObjects.string])
  | binary op l r ihl ihr =>
    have hl := ihl (fun a ha ↦ h a (List.mem_append_left _ ha))
    have hr := ihr (fun a ha ↦ h a (List.mem_append_right _ ha))
    exact .object (by simp [Members.keys]) (by simp [hl, hr, Json.AllObjects.string])
  | unary op x ih =>
    exact .object (by simp [Members.keys]) (by simp [ih h, Json.AllObjects.string])
  | call fn args config ih =>
    have hargs := distinct_listToJson fun x hx ↦ ih x hx fun a ha ↦
      h a (List.mem_cons_of_mem _ (mem_atomsOfList hx ha))
    cases config with
    | none =>
      exact .object (by simp [Members.keys]) (by simp [hargs, Json.AllObjects.string])
    | some c =>
      have hc : c.Canonical := h (.call fn (some c)) List.mem_cons_self
      exact .object (by simp [Members.keys])
        (by simp [hargs, hc.distinct, Json.AllObjects.string])
  | conditional c y n ihc ihy ihn =>
    have hc := ihc (fun a ha ↦ h a (List.mem_append_left _ (List.mem_append_left _ ha)))
    have hy := ihy (fun a ha ↦ h a (List.mem_append_left _ (List.mem_append_right _ ha)))
    have hn := ihn (fun a ha ↦ h a (List.mem_append_right _ ha))
    exact .object (by simp [Members.keys]) (by simp [hc, hy, hn, Json.AllObjects.string])
  | array xs ih =>
    have hxs := distinct_listToJson fun x hx ↦ ih x hx fun a ha ↦ h a (mem_atomsOfList hx ha)
    exact .object (by simp [Members.keys]) (by simp [hxs, Json.AllObjects.string])
  | object es ih =>
    have hes : (Json.array (toJson.entriesToJson es)).Distinct := by
      rw [entriesToJson_eq_map]
      refine .array (List.forall_mem_map.mpr fun p hp ↦ ?_)
      have hp := ih p hp fun a ha ↦ h a (mem_atomsOfEntries hp ha)
      exact .object (by simp [Members.keys]) (by simp [hp, Json.AllObjects.string])
    exact .object (by simp [Members.keys]) (by simp [hes, Json.AllObjects.string])
  | reference r =>
    have hr := ReferenceFormat.Lawful.distinct r
    exact .object (List.nodup_cons.mpr ⟨ReferenceFormat.Lawful.type_notMem r, hr.self⟩)
      (List.forall_mem_cons.mpr ⟨.string _, fun m hm ↦ hr.of_mem_members hm⟩)

end Expr

end MappingGraph
