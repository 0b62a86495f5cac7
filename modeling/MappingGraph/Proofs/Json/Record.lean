import MappingGraph.Proofs.Json.Reads

/-!
# Reading structures

`Fields.Gives ms fs values` says what the members of an object give the fields of a structure: a field
reads the member with its key, and has its value for want of one if there is none.  The order of the
members does not matter, so what is followed while they are read is which keys were seen so far
(`Fields.filled`).  `Fields.Gives.reads` makes a reading of the structure out of it, and
`Decoder.reads_tagged` does the like for an object that names its kind.
-/

set_option autoImplicit false

namespace MappingGraph

namespace Fields

variable {α β : Type} {αs : List Type} {ms ns : Members} {fs : Fields αs} {values : Values αs}
  {key : String} {seen : List String}

/-- The keys of the fields. -/
def keys : {αs : List Type} → Fields αs → List String
  | _, nil => []
  | _, cons field rest => field.key :: rest.keys

/-- The members give the fields these values. -/
inductive Gives (ms : Members) : {αs : List Type} → Fields αs → Values αs → Prop
  | nil : Gives ms .nil ()
  | found {α : Type} {αs : List Type} {field : Field α} {rest : Fields αs} {v : Json} {a : α}
    {values : Values αs} (hv : Members.find? field.key ms = some v)
    (ha : field.decode.Reads v a) (hrest : Gives ms rest values) :
    Gives ms (.cons field rest) (a, values)
  | absent {α : Type} {αs : List Type} {field : Field α} {rest : Fields αs} {a : α}
    {values : Values αs} (hv : Members.find? field.key ms = none)
    (ha : field.absent = some a) (hrest : Gives ms rest values) :
    Gives ms (.cons field rest) (a, values)

/-- A member that is left out for want of a value gives the value back. -/
theorem Gives.optionalString {rest : Fields αs} {value : Option String}
    (hv : Members.find? key ms = value.map .string) (hrest : Gives ms rest values) :
    Gives ms (.cons ⟨key, Decoder.optional Decoder.string, some none⟩ rest) (value, values) := by
  cases value with
  | none => exact .absent hv rfl hrest
  | some text => exact .found hv ((Decoder.reads_string text).optional nofun) hrest

/-- The slots when the members with some keys are read. -/
def filled : {αs : List Type} → Fields αs → Values αs → List String → Slots αs
  | _, nil, _, _ => ()
  | _, cons field rest, (a, values), seen =>
    (if field.key ∈ seen then some a else none, rest.filled values seen)

theorem filled_nil (fs : Fields αs) (values : Values αs) : fs.filled values [] = fs.noSlots := by
  induction fs with
  | nil => rfl
  | cons field rest ih =>
    obtain ⟨a, values⟩ := values
    rw [filled, if_neg List.not_mem_nil, ih, noSlots]

/-- A key of no field changes no slot. -/
theorem filled_cons_of_notMem (h : key ∉ fs.keys) :
    fs.filled values (key :: seen) = fs.filled values seen := by
  induction fs with
  | nil => rfl
  | cons field rest ih =>
    obtain ⟨a, values⟩ := values
    rw [keys, List.mem_cons, not_or] at h
    have hmem : field.key ∈ key :: seen ↔ field.key ∈ seen :=
      List.mem_cons.trans (or_iff_right (Ne.symm h.1))
    exact Prod.ext (if_congr hmem rfl rfl) (ih h.2)

/-- The slot of the first field is filled by its key. -/
theorem filled_cons_self {field : Field α} {rest : Fields αs} {a : α} (h : field.key ∉ rest.keys) :
    (cons field rest).filled (a, values) (field.key :: seen) =
      (some a, rest.filled values seen) :=
  Prod.ext (if_pos List.mem_cons_self) (filled_cons_of_notMem h)

/-- The slot of the first field is not filled by another key. -/
theorem filled_cons_of_ne {field : Field α} {rest : Fields αs} {a : α} (h : field.key ≠ key) :
    (cons field rest).filled (a, values) (key :: seen) =
      (if field.key ∈ seen then some a else none, rest.filled values (key :: seen)) :=
  Prod.ext (if_congr (List.mem_cons.trans (or_iff_right h)) rfl rfl) rfl

theorem place_cons_self {field : Field α} {rest : Fields αs} {slots : Slots αs} (s : Standing)
    (d : Draft) : (cons field rest).place s field.key d ((none, slots) : Slots (α :: αs)) =
      some ((field.decode s d).map fun a ↦ ((some a, slots) : Slots (α :: αs))) :=
  if_pos rfl

theorem place_cons_of_ne {field : Field α} {rest : Fields αs} {slot : Option α} {slots : Slots αs}
    (h : field.key ≠ key) (s : Standing) (d : Draft) :
    (cons field rest).place s key d ((slot, slots) : Slots (α :: αs)) =
      (rest.place s key d slots).map fun placed ↦
        placed.map fun slots ↦ ((slot, slots) : Slots (α :: αs)) :=
  if_neg h

/-- **A member fills the slot of its key** and no other. -/
theorem Gives.place_eq {u v : Json} (h : Gives ms fs values) (hnodup : fs.keys.Nodup)
    (hkey : key ∈ fs.keys) (hseen : key ∉ seen) (hv : Members.find? key ms = some v)
    (hu : u.Rearranges v) (s : Standing) :
    fs.place s key (Draft.ofJson u) (fs.filled values seen) =
      some (Decoder.syntactic (s.permit u.depth (fs.filled values (key :: seen)))) := by
  induction h with
  | nil => exact absurd hkey List.not_mem_nil
  | @found α αs field rest w a values hw ha _ ih =>
    obtain ⟨hfield, hrest⟩ := List.nodup_cons.mp hnodup
    by_cases heq : field.key = key
    · subst heq
      cases hw.symm.trans hv
      rw [filled_cons_self hfield, filled, if_neg hseen, place_cons_self, ha u hu s,
        Decoder.permit_map]
      rfl
    · rw [filled_cons_of_ne heq, filled, place_cons_of_ne heq,
        ih hrest ((List.mem_cons.mp hkey).resolve_left (Ne.symm heq)), Option.map_some,
        Decoder.permit_map]
      rfl
  | @absent α αs field rest a values hw _ _ ih =>
    obtain ⟨_, hrest⟩ := List.nodup_cons.mp hnodup
    have heq : field.key ≠ key := fun heq ↦ by
      rw [heq, hv] at hw
      cases hw
    rw [filled_cons_of_ne heq, filled, place_cons_of_ne heq,
      ih hrest ((List.mem_cons.mp hkey).resolve_left (Ne.symm heq)), Option.map_some,
      Decoder.permit_map]
    rfl

/-- Reading goes on behind a member that has a slot. -/
theorem collect_cons_of_place {d : Draft} {ds : List (DraftKey × Draft)} {s : Standing}
    {slots : Slots αs} {placed : Except ReadFault (Slots αs)}
    (h : fs.place s key d slots = some placed) :
    fs.collect s ((.text key, d) :: ds) slots = placed >>= fs.collect s ds := by
  simp only [collect, DraftKey.text?, Decoder.syntactic, bind, Except.bind, h]

/-- Reading members one after the other fills their slots.  The induction is on the members that are
still to be read; none of their keys was seen. -/
theorem Gives.collect_eq (h : Gives ms fs values) (hnodup : fs.keys.Nodup) {ls : Members}
    (hls : (ls.keys.reverse ++ seen).Nodup)
    (hread : ∀ l ∈ ls, l.1 ∈ fs.keys ∧ ∃ v, Members.find? l.1 ms = some v ∧ l.2.Rearranges v)
    (s : Standing) :
    fs.collect s (Draft.ofJson.ofMembers ls) (fs.filled values seen) =
      Decoder.syntactic
        (s.permit (Json.depth.depthOfMembers ls) (fs.filled values (ls.keys.reverse ++ seen))) := by
  induction ls generalizing seen with
  | nil =>
    rw [Json.depth.depthOfMembers, s.permit_zero]
    rfl
  | cons l ls ih =>
    have hkeys : (Members.keys (l :: ls)).reverse ++ seen =
        (Members.keys ls).reverse ++ l.1 :: seen := by
      rw [Members.keys, List.map_cons, List.reverse_cons, List.append_assoc]
      rfl
    rw [hkeys] at hls ⊢
    obtain ⟨hmem, v, hv, hl⟩ := hread l List.mem_cons_self
    have hseen : l.1 ∉ seen := (List.nodup_cons.mp (List.nodup_append.mp hls).2.1).1
    have hrest := ih hls fun n hn ↦ hread n (List.mem_cons_of_mem l hn)
    have hplace := h.place_eq hnodup hmem hseen hv hl s
    rw [Draft.ofJson.ofMembers, collect_cons_of_place hplace, Json.depth.depthOfMembers]
    exact Decoder.permit_bind hrest

/-- All slots are filled, or there is a value for want of one. -/
theorem Gives.finish_eq (h : Gives ms fs values) (hseen : ∀ k, k ∈ seen ↔ k ∈ ms.keys) :
    fs.finish (fs.filled values seen) = .ok values := by
  induction h with
  | nil => rfl
  | @found α αs field rest v a values hv _ _ ih =>
    have hmem : field.key ∈ seen := (hseen _).mpr (List.mem_map_of_mem (Members.mem_of_find? hv))
    rw [filled, if_pos hmem, finish, ih]
    rfl
  | @absent α αs field rest a values hv ha _ ih =>
    have hmem : field.key ∉ seen := fun hmem ↦
      Members.find?_eq_none_iff.mp hv ((hseen _).mp hmem)
    rw [filled, if_neg hmem, finish, ih, ha]
    rfl

/-- **A structure is read from the members** that give its fields their values, and no others. -/
theorem Gives.reads (h : Gives ms fs values) {name : String} {build : Values αs → β}
    (hfs : fs.keys.Nodup := by simp [Fields.keys])
    (hkeys : ∀ k ∈ ms.keys, k ∈ fs.keys := by simp [Members.keys, Fields.keys]) :
    (fs.decode name build).Reads (.object ms) (build values) := by
  intro w hw s
  obtain ⟨ns, rfl, -⟩ := hw.exists_eq_object
  rw [Draft.ofJson, decode, Json.depth]
  refine Decoder.enter_bind fun inside ↦ ?_
  have hnodup : (ns.keys.reverse ++ []).Nodup := by
    rw [List.append_nil, (List.reverse_perm _).nodup_iff]
    exact hw.distinct_left.self
  have hcollect := h.collect_eq hfs hnodup (fun n hn ↦ ?_) inside
  · have hseen : ∀ k, k ∈ ns.keys.reverse ++ [] ↔ k ∈ ms.keys := fun k ↦ by
      rw [List.append_nil, List.mem_reverse]
      exact hw.perm_keys.mem_iff
    have hmembers : fs.fromMembers inside (Draft.ofJson.ofMembers ns) .closed =
        Decoder.syntactic (inside.permit (Json.depth.depthOfMembers ns) values) := by
      rw [fromMembers, ← filled_nil fs values, hcollect]
      exact Decoder.permit_bind_ok (h.finish_eq hseen)
    rw [hmembers]
    exact Decoder.permit_bind_ok rfl
  · have hkey := hw.perm_keys.mem_iff.mp (List.mem_map_of_mem hn)
    refine ⟨hkeys _ hkey, ?_⟩
    cases hv : Members.find? n.1 ms with
    | none => exact absurd hkey (Members.find?_eq_none_iff.mp hv)
    | some v =>
      obtain ⟨u, hu, huv⟩ := hw.find? hv
      rw [(Members.find?_eq_some_iff hw.distinct_left.self).mpr hn] at hu
      exact ⟨v, rfl, Option.some.inj hu ▸ huv⟩

end Fields

/-! ## Objects that name their own kind -/

namespace Decoder

variable {α β : Type} {key name : String} {choices : List (String × α)} {a : α} {ms ns : Members}

theorem gatherMembers_cons_self {s : Standing} {d : Draft} (hd : tag choices s d = .ok a)
    (ds : List (DraftKey × Draft)) :
    gatherMembers key choices s none ((.text key, d) :: ds) =
      gatherMembers key choices s (some a) ds := by
  have htag : gatherMembers key choices s none ((.text key, d) :: ds) =
      tag choices s d >>= fun a ↦ gatherMembers key choices s (some a) ds := if_pos rfl
  rw [htag, hd]
  rfl

theorem gatherMembers_cons_of_ne {s : Standing} {k : String} (h : k ≠ key) (found : Option α)
    (d : Draft) (ds : List (DraftKey × Draft)) :
    gatherMembers key choices s found ((.text k, d) :: ds) =
      syntactic (d.value? s) >>= fun _ ↦ gatherMembers key choices s found ds >>= fun gathered ↦
        .ok (gathered.1, (.text k, d) :: gathered.2) :=
  if_neg h

/-- Members without the tag are gathered as they are. -/
theorem gatherMembers_of_notMem (h : key ∉ ns.keys) (found : Option α) (s : Standing) :
    gatherMembers key choices s found (Draft.ofJson.ofMembers ns) =
      syntactic (s.permit (Json.depth.depthOfMembers ns) (found, Draft.ofJson.ofMembers ns)) := by
  induction ns with
  | nil =>
    rw [Json.depth.depthOfMembers, s.permit_zero]
    rfl
  | cons n ns ih =>
    rw [Members.keys, List.map_cons, List.mem_cons, not_or] at h
    rw [Draft.ofJson.ofMembers, gatherMembers_cons_of_ne (Ne.symm h.1), Json.depth.depthOfMembers,
      Draft.value?_ofJson, ih h.2]
    exact permit_bind (permit_bind_ok rfl)

/-- **The tag is found among the members**, and the others are gathered. -/
theorem gatherMembers_of_find? (hkeys : ns.keys.Nodup)
    (hfind : Members.find? key ns = some (.string name)) (hname : named choices name = .ok a)
    (s : Standing) :
    gatherMembers key choices s none (Draft.ofJson.ofMembers ns) =
      syntactic (s.permit (Json.depth.depthOfMembers ns)
        (some a, Draft.ofJson.ofMembers (Members.erase key ns))) := by
  induction ns with
  | nil => cases hfind
  | cons n ns ih =>
    obtain ⟨k, v⟩ := n
    obtain ⟨hk, hns⟩ := List.nodup_cons.mp hkeys
    rw [Members.find?] at hfind
    rw [Draft.ofJson.ofMembers, Json.depth.depthOfMembers]
    by_cases heq : k = key
    · subst heq
      rw [if_pos rfl] at hfind
      cases hfind
      have herase : Members.erase k ((k, .string name) :: ns) = ns :=
        (List.filter_cons_of_neg (by simp)).trans <| List.filter_eq_self.mpr fun m hm ↦
          decide_eq_true fun h ↦ hk (List.mem_map.mpr ⟨m, hm, h⟩)
      have htag : tag choices s (Draft.ofJson (.string name)) = .ok a := hname
      rw [herase, gatherMembers_cons_self htag, gatherMembers_of_notMem hk, Json.depth,
        Nat.zero_max]
    · rw [if_neg heq] at hfind
      have herase : Members.erase key ((k, v) :: ns) = (k, v) :: Members.erase key ns :=
        List.filter_cons_of_pos (decide_eq_true heq)
      rw [herase, gatherMembers_cons_of_ne heq, Draft.value?_ofJson, ih hns hfind]
      exact permit_bind (permit_bind_ok rfl)

/-- **An object that names its kind is read** as its other members are read by that kind. -/
theorem reads_tagged {expected : String} {content : α → Decoder β} {b : β}
    (hfind : Members.find? key ms = some (.string name)) (hname : named choices name = .ok a)
    (hcontent : (content a).Reads (.object (Members.erase key ms)) b) :
    (tagged key choices expected content).Reads (.object ms) b := by
  intro w hw s
  obtain ⟨ns, rfl, -⟩ := hw.exists_eq_object
  obtain ⟨u, hu, hstring⟩ := hw.find? hfind
  rw [hstring.eq_string] at hu
  rw [Draft.ofJson, tagged, Json.depth]
  refine enter_bind fun inside ↦ ?_
  rw [gatherMembers_of_find? hw.distinct_left.self hu hname]
  exact permit_bind_ok (hcontent _ (hw.erase key) .gathered)

end Decoder

end MappingGraph
