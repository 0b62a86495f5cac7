import MappingGraph.Json.Record
import MappingGraph.Proofs.Json.Canonical

/-!
# What is known of a value that was read

`Decoder.EnsuresAt Q standing decode P` says that whatever the decoder reads at a standing, and from
a draft with the property `Q`, has the property `P`; `Decoder.Ensures decode P` says this for every
standing and every draft.  A list that was read has it for each of its items, and a structure
(`Fields.EnsuresAt`) for each of its fields, whether the field was found or supplied for want of
one.  Their items and fields stand inside, where a text has less room left, and are read from parts
of the draft, so what is known of a draft must be known of its parts (`Draft.Hereditary`).
-/

set_option autoImplicit false

namespace MappingGraph

theorem exists_of_map_eq_ok {ε α β : Type} {x : Except ε α} {f : α → β} {b : β}
    (h : x.map f = .ok b) : ∃ a, x = .ok a ∧ f a = b := by
  cases x with
  | error => cases h
  | ok a => exact ⟨a, rfl, Except.ok.inj h⟩

/-- What is known of a draft is known of its parts. -/
structure Draft.Hereditary (Q : Draft → Prop) : Prop where
  items : ∀ {xs : List Draft} {ending : Ending}, Q (.array xs ending) → ∀ x ∈ xs, Q x
  members : ∀ {ms : List (DraftKey × Draft)} {ending : Ending},
    Q (.object ms ending) → ∀ m ∈ ms, Q m.2

theorem Draft.hereditary_true : Hereditary fun _ ↦ True :=
  ⟨fun _ _ _ ↦ trivial, fun _ _ _ ↦ trivial⟩

namespace Decoder

variable {α : Type} {decode : Decoder α} {P : α → Prop} {Q : Draft → Prop}

/-- Whatever the decoder reads has the property. -/
def Ensures (decode : Decoder α) (P : α → Prop) : Prop :=
  ∀ ⦃standing : Standing⦄ ⦃d : Draft⦄ ⦃a : α⦄, decode standing d = .ok a → P a

/-- Whatever the decoder reads at a standing, and from such a draft, has the property. -/
def EnsuresAt (Q : Draft → Prop) (standing : Standing) (decode : Decoder α) (P : α → Prop) : Prop :=
  ∀ ⦃d : Draft⦄ ⦃a : α⦄, Q d → decode standing d = .ok a → P a

theorem Ensures.at (h : Ensures decode P) (Q : Draft → Prop) (standing : Standing) :
    EnsuresAt Q standing decode P :=
  fun _ _ _ ha ↦ h ha

theorem ensures_json : Ensures json Json.Canonical := fun _ _ _ ↦ canonical_of_json

theorem ensures_true (decode : Decoder α) : Ensures decode fun _ ↦ True :=
  fun _ _ _ _ ↦ trivial

theorem ensuresAt_true (Q : Draft → Prop) (standing : Standing) (decode : Decoder α) :
    EnsuresAt Q standing decode fun _ ↦ True :=
  fun _ _ _ _ ↦ trivial

theorem EnsuresAt.items {standing : Standing} (h : EnsuresAt Q standing decode P)
    {ds : List Draft} (hds : ∀ d ∈ ds, Q d) {as : List α}
    (has : Decoder.items decode standing ds = .ok as) : ∀ a ∈ as, P a := by
  induction ds generalizing as with
  | nil =>
    cases has
    exact List.forall_mem_nil _
  | cons d ds ih =>
    obtain ⟨a, ha, has⟩ := exists_of_bind_eq_ok has
    obtain ⟨rest, hrest, has⟩ := exists_of_bind_eq_ok has
    cases has
    obtain ⟨hd, hds⟩ := List.forall_mem_cons.mp hds
    exact List.forall_mem_cons.mpr ⟨h hd ha, ih hds hrest⟩

/-- The items of a list stand inside. -/
theorem EnsuresAt.list (hQ : Draft.Hereditary Q) {standing : Standing}
    (h : ∀ inside, standing.enter = .ok inside → EnsuresAt Q inside decode P) :
    EnsuresAt Q standing (Decoder.list decode) fun as ↦ ∀ a ∈ as, P a := by
  intro d as hd has
  cases d with
  | array ds ending =>
    obtain ⟨inside, hinside, has⟩ := exists_of_bind_eq_ok has
    obtain ⟨values, hvalues, has⟩ := exists_of_bind_eq_ok has
    obtain ⟨_, _, has⟩ := exists_of_bind_eq_ok has
    cases has
    exact (h inside (eq_ok_of_syntactic hinside)).items (hQ.items hd) hvalues
  | _ => cases has

theorem EnsuresAt.list_text (hQ : Draft.Hereditary Q) {room : Nat}
    (h : EnsuresAt Q (.text room) decode P) :
    EnsuresAt Q (.text (room + 1)) (Decoder.list decode) fun as ↦ ∀ a ∈ as, P a :=
  EnsuresAt.list hQ fun _ hinside ↦ Except.ok.inj hinside ▸ h

theorem Ensures.list (h : Ensures decode P) :
    Ensures (Decoder.list decode) fun as ↦ ∀ a ∈ as, P a :=
  fun _ _ _ has ↦
    EnsuresAt.list Draft.hereditary_true (fun inside _ ↦ h.at _ inside) trivial has

end Decoder

namespace Fields

variable {β : Type} {αs : List Type} {fs : Fields αs} {P : Values αs → Prop} {S : Slots αs → Prop}
  {Q : Draft → Prop} {standing : Standing} {values : Values αs} {slots placed : Slots αs}

/-- Whatever the fields read at a standing, and from such drafts, has the property, and so has what
was read of it so far. -/
inductive EnsuresAt (Q : Draft → Prop) (standing : Standing) :
    {αs : List Type} → Fields αs → (Values αs → Prop) → (Slots αs → Prop) → Prop
  | nil : EnsuresAt Q standing .nil (fun _ ↦ True) fun _ ↦ True
  | cons {α : Type} {αs : List Type} {field : Field α} {rest : Fields αs} {P : α → Prop}
    {R : Values αs → Prop} {S : Slots αs → Prop} (hread : field.decode.EnsuresAt Q standing P)
    (habsent : ∀ a, field.absent = some a → P a) (hrest : EnsuresAt Q standing rest R S) :
    EnsuresAt Q standing (.cons field rest) (fun values ↦ P values.1 ∧ R values.2)
      fun slots ↦ (∀ a, slots.1 = some a → P a) ∧ S slots.2

/-- Whatever the fields read has the property, wherever they stand. -/
inductive Ensures : {αs : List Type} → Fields αs → (Values αs → Prop) → (Slots αs → Prop) → Prop
  | nil : Ensures .nil (fun _ ↦ True) fun _ ↦ True
  | cons {α : Type} {αs : List Type} {field : Field α} {rest : Fields αs} {P : α → Prop}
    {Q : Values αs → Prop} {S : Slots αs → Prop} (hread : field.decode.Ensures P)
    (habsent : ∀ a, field.absent = some a → P a) (hrest : Ensures rest Q S) :
    Ensures (.cons field rest) (fun values ↦ P values.1 ∧ Q values.2)
      fun slots ↦ (∀ a, slots.1 = some a → P a) ∧ S slots.2

/-- A field of which nothing is known. -/
theorem EnsuresAt.skip {α : Type} {field : Field α} (h : fs.EnsuresAt Q standing P S) :
    (Fields.cons field fs).EnsuresAt Q standing (fun values ↦ True ∧ P values.2)
      fun slots ↦ (∀ a, slots.1 = some a → True) ∧ S slots.2 :=
  .cons (Decoder.ensuresAt_true _ _ _) (fun _ _ ↦ trivial) h

@[inherit_doc EnsuresAt.skip]
theorem Ensures.skip {α : Type} {field : Field α} (h : fs.Ensures P S) :
    (Fields.cons field fs).Ensures (fun values ↦ True ∧ P values.2)
      fun slots ↦ (∀ a, slots.1 = some a → True) ∧ S slots.2 :=
  .cons (Decoder.ensures_true _) (fun _ _ ↦ trivial) h

theorem EnsuresAt.noSlots (h : fs.EnsuresAt Q standing P S) : S fs.noSlots := by
  induction h with
  | nil => trivial
  | cons _ _ _ ih => exact ⟨nofun, ih⟩

theorem EnsuresAt.place (h : fs.EnsuresAt Q standing P S) (hslots : S slots) {key : String}
    {d : Draft} (hd : Q d) (hplace : fs.place standing key d slots = some (.ok placed)) :
    S placed := by
  induction h with
  | nil => cases hplace
  | @cons α αs field rest P R S hread _ _ ih =>
    obtain ⟨slot, slots⟩ := slots
    rw [Fields.place] at hplace
    split at hplace
    · dsimp only at hplace
      split at hplace
      · cases hplace
      · obtain ⟨a, ha, rfl⟩ := exists_of_map_eq_ok (Option.some.inj hplace)
        exact ⟨fun b hb ↦ Option.some.inj hb ▸ hread hd ha, hslots.2⟩
    · obtain ⟨x, hx, hmap⟩ := Option.map_eq_some_iff.mp hplace
      obtain ⟨others, rfl, rfl⟩ := exists_of_map_eq_ok hmap
      exact ⟨hslots.1, ih hslots.2 hx⟩

theorem EnsuresAt.collect (h : fs.EnsuresAt Q standing P S) (hslots : S slots)
    {ms : List (DraftKey × Draft)} (hms : ∀ m ∈ ms, Q m.2)
    (hcollect : fs.collect standing ms slots = .ok placed) : S placed := by
  induction ms generalizing slots with
  | nil =>
    cases hcollect
    exact hslots
  | cons m ms ih =>
    rw [Fields.collect] at hcollect
    obtain ⟨hm, hms⟩ := List.forall_mem_cons.mp hms
    obtain ⟨key, _, hcollect⟩ := exists_of_bind_eq_ok hcollect
    split at hcollect
    · next placed' hplace =>
      obtain ⟨next, hnext, hcollect⟩ := exists_of_bind_eq_ok hcollect
      exact ih (h.place hslots hm (hnext ▸ hplace)) hms hcollect
    · obtain ⟨_, _, hcollect⟩ := exists_of_bind_eq_ok hcollect
      exact ih hslots hms hcollect

theorem EnsuresAt.finish (h : fs.EnsuresAt Q standing P S) (hslots : S slots)
    (hfinish : fs.finish slots = .ok values) : P values := by
  induction h with
  | nil => trivial
  | @cons α αs field rest P R S _ habsent _ ih =>
    obtain ⟨slot, slots⟩ := slots
    rw [Fields.finish] at hfinish
    split at hfinish
    · next a ha =>
      obtain ⟨others, hothers, hfinish⟩ := exists_of_bind_eq_ok hfinish
      cases hfinish
      refine ⟨?_, ih hslots.2 hothers⟩
      cases slot with
      | none => exact habsent a ha
      | some b => exact hslots.1 a ha
    · cases hfinish

theorem EnsuresAt.fromItems (h : fs.EnsuresAt Q standing P S) {expected : String} {position : Nat}
    {xs left : List Draft} (hxs : ∀ x ∈ xs, Q x) {ending : Ending}
    (hread : fs.fromItems standing expected position xs ending = .ok (values, left)) :
    P values := by
  induction h generalizing position xs with
  | nil => trivial
  | @cons α αs field rest P R S hfield habsent _ ih =>
    cases xs with
    | nil =>
      rw [Fields.fromItems] at hread
      obtain ⟨_, _, hread⟩ := exists_of_bind_eq_ok hread
      split at hread
      · next a ha =>
        obtain ⟨⟨others, _⟩, hothers, hread⟩ := exists_of_bind_eq_ok hread
        cases hread
        exact ⟨habsent a ha, ih hxs hothers⟩
      · cases hread
    | cons x xs =>
      rw [Fields.fromItems] at hread
      obtain ⟨a, ha, hread⟩ := exists_of_bind_eq_ok hread
      obtain ⟨⟨others, _⟩, hothers, hread⟩ := exists_of_bind_eq_ok hread
      cases hread
      obtain ⟨hx, hxs⟩ := List.forall_mem_cons.mp hxs
      exact ⟨hfield hx ha, ih hxs hothers⟩

/-- **What is known of the fields is known of the structure.**  The fields stand inside. -/
theorem EnsuresAt.decode (hQ : Draft.Hereditary Q)
    (h : ∀ inside, standing.enter = .ok inside → fs.EnsuresAt Q inside P S)
    {name : String} {build : Values αs → β} {R : β → Prop}
    (hbuild : ∀ values, P values → R (build values)) :
    (fs.decode name build).EnsuresAt Q standing R := by
  intro d b hd hread
  cases d with
  | object ms ending =>
    obtain ⟨inside, hinside, hread⟩ := exists_of_bind_eq_ok hread
    obtain ⟨values, hvalues, hread⟩ := exists_of_bind_eq_ok hread
    obtain ⟨slots, hslots, hvalues⟩ := exists_of_bind_eq_ok hvalues
    obtain ⟨_, _, hvalues⟩ := exists_of_bind_eq_ok hvalues
    cases hread
    have h := h inside (Decoder.eq_ok_of_syntactic hinside)
    exact hbuild values (h.finish (h.collect h.noSlots (hQ.members hd) hslots) hvalues)
  | array xs ending =>
    obtain ⟨inside, hinside, hread⟩ := exists_of_bind_eq_ok hread
    obtain ⟨values, hvalues, hread⟩ := exists_of_bind_eq_ok hread
    obtain ⟨⟨values', left⟩, hitems, hvalues⟩ := exists_of_bind_eq_ok hvalues
    obtain ⟨_, _, hvalues⟩ := exists_of_bind_eq_ok hvalues
    cases hvalues
    cases hread
    have h := h inside (Decoder.eq_ok_of_syntactic hinside)
    exact hbuild values (h.fromItems (hQ.items hd) hitems)
  | _ => cases hread

theorem EnsuresAt.decode_text (hQ : Draft.Hereditary Q) {room : Nat}
    (h : fs.EnsuresAt Q (.text room) P S) {name : String} {build : Values αs → β} {R : β → Prop}
    (hbuild : ∀ values, P values → R (build values)) :
    (fs.decode name build).EnsuresAt Q (.text (room + 1)) R :=
  EnsuresAt.decode hQ (fun _ hinside ↦ Except.ok.inj hinside ▸ h) hbuild

theorem Ensures.at (h : fs.Ensures P S) (Q : Draft → Prop) (standing : Standing) :
    fs.EnsuresAt Q standing P S := by
  induction h with
  | nil => exact .nil
  | cons hread habsent _ ih => exact .cons (hread.at Q standing) habsent ih

theorem Ensures.decode (h : fs.Ensures P S) {name : String} {build : Values αs → β}
    {R : β → Prop} (hbuild : ∀ values, P values → R (build values)) :
    (fs.decode name build).Ensures R :=
  fun _ _ _ hread ↦
    EnsuresAt.decode Draft.hereditary_true (fun inside _ ↦ h.at _ inside) hbuild trivial hread

end Fields

end MappingGraph
