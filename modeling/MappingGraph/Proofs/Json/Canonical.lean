import MappingGraph.Json.Decoder
import MappingGraph.Proofs.Json.Order
import MappingGraph.Schema.Overlay

/-!
# Canonical values

Values come into being by being read, and then they are canonical: the keys of each object ascend
(`Decoder.canonical_of_json`).  Whatever is computed from canonical values stays canonical; here are
the lemmas for merge patches, changes at a pointer and overlays.
-/

set_option autoImplicit false

namespace MappingGraph

namespace Json

variable {v w : Json}

/-! ## Parts and changes -/

theorem Canonical.of_find? {ms : Members} (h : (Json.object ms).Canonical) {key : String}
    (hw : Members.find? key ms = some w) : w.Canonical :=
  h.of_mem_members (Members.mem_of_find? hw)

theorem Canonical.set {ms : Members} (h : (Json.object ms).Canonical) (key : String)
    (hw : w.Canonical) : (Json.object (Members.set key w ms)).Canonical := by
  refine .object (h.self.set key w) fun m hm ↦ ?_
  rcases Members.mem_set hm with rfl | hm
  · exact hw
  · exact h.of_mem_members hm

theorem Canonical.erase {ms : Members} (h : (Json.object ms).Canonical) (key : String) :
    (Json.object (Members.erase key ms)).Canonical :=
  .object (h.self.filter _) fun _ hm ↦ h.of_mem_members (List.mem_of_mem_filter hm)

theorem Canonical.membersOrNone (h : v.Canonical) : (Json.object v.membersOrNone).Canonical := by
  cases v with
  | object ms => exact h
  | _ => exact .object .nil fun _ hm ↦ absurd hm List.not_mem_nil

theorem canonical_mergeMembers {ps : Members}
    (ih : ∀ p ∈ ps, ∀ target, target.Canonical → (p.2.mergePatch target).Canonical) {ms : Members}
    (h : (Json.object ms).Canonical) : (Json.object (mergePatch.mergeMembers ps ms)).Canonical := by
  induction ps generalizing ms with
  | nil => exact h
  | cons p ps ihs =>
    have ihs' := @ihs fun q hq ↦ ih q (List.mem_cons_of_mem p hq)
    obtain ⟨key, patch⟩ := p
    by_cases hnull : patch = .null
    · rw [hnull, mergePatch.mergeMembers]
      exact ihs' (h.erase key)
    · rw [mergePatch.mergeMembers.eq_3 _ _ _ _ hnull]
      refine ihs' (h.set key (ih _ List.mem_cons_self _ ?_))
      cases hf : Members.find? key ms with
      | none => exact .null
      | some w => exact h.of_find? hf

/-- **A canonical patch keeps values canonical.** -/
theorem Canonical.mergePatch (hv : v.Canonical) (hw : w.Canonical) :
    (Json.mergePatch v w).Canonical := by
  induction v using ind generalizing w with
  | null | bool | number | string | array => exact hv
  | object ps ih =>
    rw [Json.mergePatch]
    exact canonical_mergeMembers (fun p hp _ ↦ ih p hp (hv.of_mem_members hp)) hw.membersOrNone

theorem Canonical.of_step? (h : v.Canonical) {token : String} (hw : v.step? token = some w) :
    w.Canonical := by
  rw [step?.eq_def] at hw
  split at hw
  · exact h.of_find? hw
  · obtain ⟨i, _, hi⟩ := Option.bind_eq_some_iff.mp hw
    exact h.of_mem_items (List.mem_of_getElem? hi)
  · cases hw

theorem Canonical.replaceStep (h : v.Canonical) (token : String) (hw : w.Canonical) :
    (Json.replaceStep token w v).Canonical := by
  rw [Json.replaceStep.eq_def]
  split
  · exact h.set token hw
  · split
    · refine .array fun x hx ↦ ?_
      rcases List.mem_or_eq_of_mem_set hx with hx | rfl
      · exact h.of_mem_items hx
      · exact hw
    · exact h
  · exact h

theorem Canonical.modifySteps? {change : Json → Json}
    (hchange : ∀ x : Json, x.Canonical → (change x).Canonical) {tokens : List String}
    (h : v.Canonical) (hw : v.modifySteps? change tokens = some w) : w.Canonical := by
  induction tokens generalizing v w with
  | nil => exact Option.some.inj hw ▸ hchange v h
  | cons token tokens ih =>
    obtain ⟨part, hpart, hw⟩ := Option.bind_eq_some_iff.mp hw
    obtain ⟨changed, hchanged, hw⟩ := Option.bind_eq_some_iff.mp hw
    exact Option.some.inj hw ▸ h.replaceStep token (ih (h.of_step? hpart) hchanged)

end Json

namespace Overlay

variable {schema : Json}

theorem canonical_apply (h : schema.Canonical) {o : Overlay} (ho : o.patch.Canonical) :
    (apply schema o).Canonical := by
  rw [apply]
  cases o.place? schema with
  | none => exact h
  | some place =>
    change ((schema.modify? place.pointer o.patch.mergePatch).getD schema).Canonical
    cases hm : schema.modify? place.pointer o.patch.mergePatch with
    | none => exact h
    | some w => exact h.modifySteps? (fun _ hx ↦ ho.mergePatch hx) hm

/-- **Canonical overlays keep a schema canonical.** -/
theorem canonical_applyAll {overlays : List Overlay} (h : schema.Canonical) (side : Side)
    (ho : ∀ o ∈ overlays, o.patch.Canonical) : (applyAll overlays side schema).Canonical := by
  rw [applyAll]
  split
  · exact h
  · exact List.foldlRecOn _ _ h fun _ hacc o hmem ↦
      canonical_apply hacc (ho o (List.mem_of_mem_filter hmem))

end Overlay

/-! ## What is read -/

theorem exists_of_bind_eq_ok {ε α β : Type} {x : Except ε α} {f : α → Except ε β} {b : β}
    (h : x >>= f = .ok b) : ∃ a, x = .ok a ∧ f a = .ok b := by
  cases x with
  | error => cases h
  | ok a => exact ⟨a, rfl, h⟩

/-- Induction over a draft, with the hypothesis for every item and every member. -/
@[elab_as_elim]
theorem Draft.ind {P : Draft → Prop} (null : P .null) (bool : ∀ b, P (.bool b))
    (number : ∀ n, P (.number n)) (string : ∀ s, P (.string s))
    (array : ∀ xs ending, (∀ x ∈ xs, P x) → P (.array xs ending))
    (object : ∀ ms ending, (∀ m ∈ ms, P m.2) → P (.object ms ending))
    (badString : ∀ flaw, P (.badString flaw)) (badToken : ∀ flaw, P (.badToken flaw))
    (missing : ∀ fault, P (.missing fault)) (d : Draft) : P d :=
  @Draft.rec P (fun xs ↦ ∀ x ∈ xs, P x) (fun ms ↦ ∀ m ∈ ms, P m.2) (fun m ↦ P m.2)
    null bool number string array object badString badToken missing
    (fun _ h ↦ absurd h List.not_mem_nil)
    (fun _ _ hx hxs y hy ↦ (List.mem_cons.mp hy).elim (fun h ↦ h ▸ hx) (hxs y))
    (fun _ h ↦ absurd h List.not_mem_nil)
    (fun _ _ hm hms n hn ↦ (List.mem_cons.mp hn).elim (fun h ↦ h ▸ hm) (hms n))
    (fun _ _ hx ↦ hx) d

namespace Draft

theorem exists_of_items?_eq_ok {standing : Standing} {xs : List Draft} {vs : List Json}
    (h : value?.items? standing xs = .ok vs) {v : Json} (hv : v ∈ vs) :
    ∃ x ∈ xs, x.value? standing = .ok v := by
  induction xs generalizing vs with
  | nil =>
    cases h
    exact absurd hv List.not_mem_nil
  | cons x xs ih =>
    obtain ⟨w, hx, h⟩ := exists_of_bind_eq_ok h
    obtain ⟨ws, hxs, h⟩ := exists_of_bind_eq_ok h
    cases h
    rcases List.mem_cons.mp hv with rfl | hv
    · exact ⟨x, List.mem_cons_self, hx⟩
    · obtain ⟨y, hy, hval⟩ := ih hxs hv
      exact ⟨y, List.mem_cons_of_mem x hy, hval⟩

theorem exists_of_members?_eq_ok {standing : Standing} {ms : List (DraftKey × Draft)}
    {vs : Members} (h : value?.members? standing ms = .ok vs) {v : String × Json} (hv : v ∈ vs) :
    ∃ m ∈ ms, m.2.value? standing = .ok v.2 := by
  induction ms generalizing vs with
  | nil =>
    cases h
    exact absurd hv List.not_mem_nil
  | cons m ms ih =>
    obtain ⟨k, _, h⟩ := exists_of_bind_eq_ok h
    obtain ⟨w, hm, h⟩ := exists_of_bind_eq_ok h
    obtain ⟨ws, hms, h⟩ := exists_of_bind_eq_ok h
    cases h
    rcases List.mem_cons.mp hv with rfl | hv
    · exact ⟨m, List.mem_cons_self, hm⟩
    · obtain ⟨n, hn, hval⟩ := ih hms hv
      exact ⟨n, List.mem_cons_of_mem m hn, hval⟩

/-- The value of an array has the values of the items, which stand inside. -/
theorem exists_of_value?_array {standing : Standing} {xs : List Draft} {ending : Ending} {v : Json}
    (h : (array xs ending).value? standing = .ok v) : ∃ inside vs, standing.enter = .ok inside ∧
      v = .array vs ∧ ∀ w ∈ vs, ∃ x ∈ xs, x.value? inside = .ok w := by
  rw [value?] at h
  obtain ⟨inside, hinside, h⟩ := exists_of_bind_eq_ok h
  obtain ⟨vs, hvs, h⟩ := exists_of_bind_eq_ok h
  obtain ⟨_, _, h⟩ := exists_of_bind_eq_ok h
  cases h
  exact ⟨inside, vs, hinside, rfl, fun _ ↦ exists_of_items?_eq_ok hvs⟩

/-- The value of an object has the values of the members in order. -/
theorem exists_of_value?_object {standing : Standing} {ms : List (DraftKey × Draft)}
    {ending : Ending} {v : Json} (h : (object ms ending).value? standing = .ok v) :
    ∃ inside vs, standing.enter = .ok inside ∧ v = .object (Members.ordered vs) ∧
      ∀ w ∈ Members.ordered vs, ∃ m ∈ ms, m.2.value? inside = .ok w.2 := by
  rw [value?] at h
  obtain ⟨inside, hinside, h⟩ := exists_of_bind_eq_ok h
  obtain ⟨vs, hvs, h⟩ := exists_of_bind_eq_ok h
  obtain ⟨_, _, h⟩ := exists_of_bind_eq_ok h
  cases h
  exact ⟨inside, vs, hinside, rfl, fun _ hw ↦
    exists_of_members?_eq_ok hvs (Members.mem_of_mem_ordered hw)⟩

/-- **The value of a draft is canonical.** -/
theorem canonical_of_value? {d : Draft} {standing : Standing} {v : Json}
    (h : d.value? standing = .ok v) : v.Canonical := by
  induction d using Draft.ind generalizing standing v with
  | null => cases h; exact .null
  | bool b => cases h; exact .bool b
  | number n => cases h; exact .number n
  | string s => cases h; exact .string s
  | badString | badToken | missing => cases h
  | array xs ending ih =>
    obtain ⟨inside, vs, _, rfl, hvs⟩ := exists_of_value?_array h
    refine .array fun w hw ↦ ?_
    obtain ⟨x, hx, hval⟩ := hvs w hw
    exact ih x hx hval
  | object ms ending ih =>
    obtain ⟨inside, vs, _, rfl, hvs⟩ := exists_of_value?_object h
    refine .object (Members.ascending_ordered vs) fun w hw ↦ ?_
    obtain ⟨m, hm, hval⟩ := hvs w hw
    exact ih m hm hval

end Draft

namespace Decoder

theorem eq_ok_of_syntactic {α : Type} {x : Except SyntaxFault α} {a : α}
    (h : syntactic x = .ok a) : x = .ok a := by
  cases x with
  | error => cases h
  | ok => cases h; rfl

theorem canonical_of_json {standing : Standing} {d : Draft} {v : Json}
    (h : json standing d = .ok v) : v.Canonical :=
  Draft.canonical_of_value? (eq_ok_of_syntactic h)

end Decoder

/-- A value written in a text is canonical. -/
theorem Json.canonical_of_ofText? {text : String} {v : Json} (h : Json.ofText? text = .ok v) :
    v.Canonical := by
  obtain ⟨w, hw, h⟩ := exists_of_bind_eq_ok h
  obtain ⟨_, _, h⟩ := exists_of_bind_eq_ok h
  cases h
  exact Decoder.canonical_of_json hw

end MappingGraph
