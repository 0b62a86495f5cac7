import Mathlib.Data.List.Basic
import MappingGraph.Checksum
import MappingGraph.Proofs.Document.RoundTrip
import MappingGraph.Proofs.Json.Apart

/-!
# What a checksum tells

The checksum of a document is the hash of its text.  So two documents can have the same checksum for
three reasons only: they are the same, or the same text was written for both, or the hash collides
(`Sha256.Collide`).  The second happens only if some free values are not told apart by their texts
(`Document.TellsFree`), because the rest of a document is (`Document.tells_toJson`) and a document
that was read comes back from a value.

Legible free values are always told apart (`Document.tellsFree_of_legible`).
-/

set_option autoImplicit false

namespace MappingGraph

/-! ## Hashes and their digits -/

namespace Sha256

/-- Two different messages with the same hash. -/
def Collide (a b : List UInt8) : Prop := a ≠ b ∧ hash a = hash b

theorem digitChar_inj : ∀ m < 16, ∀ n < 16, Nat.digitChar m = Nat.digitChar n → m = n := by
  decide

/-- A number is determined by its digits. -/
theorem eq_of_digits {count m n : Nat} (hm : m < 16 ^ count) (hn : n < 16 ^ count)
    (h : ∀ i < count, m / 16 ^ i % 16 = n / 16 ^ i % 16) : m = n := by
  induction count generalizing m n with
  | zero => omega
  | succ count ih =>
    have hlast := h 0 (Nat.succ_pos count)
    have hrest : m / 16 = n / 16 := by
      refine ih (by omega) (by omega) fun i hi ↦ ?_
      have hi := h (i + 1) (Nat.succ_lt_succ hi)
      rwa [Nat.pow_succ', ← Nat.div_div_eq_div_mul, ← Nat.div_div_eq_div_mul] at hi
    rw [pow_zero, Nat.div_one, Nat.div_one] at hlast
    omega

theorem eq_of_wordHex_eq {w v : UInt32} (h : wordHex w = wordHex v) : w = v := by
  have hw : w.toNat < 16 ^ 8 := w.toNat_lt
  have hv : v.toNat < 16 ^ 8 := v.toNat_lt
  refine UInt32.toNat_inj.mp (eq_of_digits hw hv fun i hi ↦ ?_)
  have hchar := List.map_inj_left.mp h i (by simpa using hi)
  exact digitChar_inj _ (Nat.mod_lt _ (by decide)) _ (Nat.mod_lt _ (by decide)) hchar

theorem eq_of_flatMap_wordHex_eq {ws vs : List UInt32} (hlength : ws.length = vs.length)
    (h : ws.flatMap wordHex = vs.flatMap wordHex) : ws = vs := by
  induction ws generalizing vs with
  | nil => exact (List.eq_nil_of_length_eq_zero hlength.symm).symm
  | cons w ws ih =>
    cases vs with
    | nil => cases hlength
    | cons v vs =>
      rw [List.flatMap_cons, List.flatMap_cons] at h
      obtain ⟨hw, hws⟩ := List.append_inj h (by simp [wordHex])
      rw [eq_of_wordHex_eq hw, ih (Nat.succ.inj hlength) hws]

/-- The digits show the whole hash. -/
theorem hexDigest_eq_iff {a b : List UInt8} : hexDigest a = hexDigest b ↔ hash a = hash b := by
  refine ⟨fun h ↦ ?_, fun h ↦ by rw [hexDigest, hexDigest, h]⟩
  rw [hexDigest, hexDigest, String.ofList_inj] at h
  have hwords := eq_of_flatMap_wordHex_eq (by simp only [List.length_cons]) h
  cases ha : hash a
  cases hb : hash b
  simpa [ha, hb] using hwords

end Sha256

/-! ## Telling documents apart -/

theorem Node.tells_toJson {m n : Node} (h : m.config.Tells n.config) :
    m.toJson.Tells n.toJson := by
  obtain ⟨id, kind, label, config⟩ := m
  obtain ⟨id', kind', label', config'⟩ := n
  refine Json.tells_object ?_
  cases label <;> cases label' <;> simp [optionalMember, Kind.toJson, Json.tells_string, h]

theorem Overlay.tells_toJson {o p : Overlay} (h : o.patch.Tells p.patch) :
    o.toJson.Tells p.toJson :=
  Json.tells_object (by simp [Side.toJson, Json.tells_string, h])

namespace Edge

/-- All members of an edge are strings. -/
theorem exists_members_eq (e : Edge) :
    ∃ ms : Members, e.toJson = .object ms ∧ ∀ m ∈ ms, ∃ text, m.2 = .string text := by
  refine ⟨_, rfl, ?_⟩
  obtain ⟨id, start, startHandle, stop, stopHandle⟩ := e
  cases startHandle <;> cases stopHandle <;> simp [optionalMember, Endpoint.toJson]

theorem tells_toJson (e f : Edge) : e.toJson.Tells f.toJson := by
  obtain ⟨ms, he, hms⟩ := e.exists_members_eq
  obtain ⟨ns, hf, hns⟩ := f.exists_members_eq
  rw [he, hf]
  refine Json.tells_object fun m hm n hn _ ↦ ?_
  obtain ⟨s, hs⟩ := hms m hm
  obtain ⟨t, ht⟩ := hns n hn
  rw [hs, ht]
  exact Json.tells_string s t

end Edge

namespace Document

variable {d e : Document}

/-- The values that a document carries without looking at them. -/
def freeValues (d : Document) : List Json :=
  d.nodes.map Node.config ++ d.overlays.map Overlay.patch ++
    [d.sourceSchema, d.targetSchema, d.metadata]

/-- The free values of the two documents are told apart by their texts. -/
def TellsFree (d e : Document) : Prop := ∀ v ∈ d.freeValues, ∀ w ∈ e.freeValues, v.Tells w

theorem mem_freeValues {v : Json} : v ∈ d.freeValues ↔
    (∃ n ∈ d.nodes, n.config = v) ∨ (∃ o ∈ d.overlays, o.patch = v) ∨
      v = d.sourceSchema ∨ v = d.targetSchema ∨ v = d.metadata := by
  simp [freeValues]

theorem Canonical.of_mem_freeValues (h : d.Canonical) {v : Json} (hv : v ∈ d.freeValues) :
    v.Canonical := by
  rcases mem_freeValues.mp hv with ⟨n, hn, rfl⟩ | ⟨o, ho, rfl⟩ | rfl | rfl | rfl
  · exact h.configs n hn
  · exact h.patches o ho
  · exact h.sourceSchema
  · exact h.targetSchema
  · exact h.metadata

/-- Legible free values are told apart. -/
theorem tellsFree_of_legible (hd : d.WasRead) (he : e.WasRead)
    (hld : ∀ v ∈ d.freeValues, v.Legible) (hle : ∀ w ∈ e.freeValues, w.Legible) :
    d.TellsFree e :=
  fun v hv w hw ↦ (hld v hv).tells (hle w hw) (hd.canonical.of_mem_freeValues hv)
    (he.canonical.of_mem_freeValues hw)

/-- **The text of a document tells everything but its free values.** -/
theorem tells_toJson (h : d.TellsFree e) : d.toJson.Tells e.toJson := by
  have hnodes : (Json.array (d.nodes.map Node.toJson)).Tells (.array (e.nodes.map Node.toJson)) :=
    Json.tells_array_map (fun m hm n hn ↦ Node.tells_toJson (h _ (mem_freeValues.mpr
      (.inl ⟨m, hm, rfl⟩)) _ (mem_freeValues.mpr (.inl ⟨n, hn, rfl⟩)))) fun _ ↦ ⟨_, rfl⟩
  have hedges : (Json.array (d.edges.map Edge.toJson)).Tells (.array (e.edges.map Edge.toJson)) :=
    Json.tells_array_map (fun f _ g _ ↦ f.tells_toJson g) fun _ ↦ ⟨_, rfl⟩
  have hoverlays : (Json.array (d.overlays.map Overlay.toJson)).Tells
      (.array (e.overlays.map Overlay.toJson)) :=
    Json.tells_array_map (fun o ho p hp ↦ Overlay.tells_toJson (h _ (mem_freeValues.mpr
      (.inr (.inl ⟨o, ho, rfl⟩))) _ (mem_freeValues.mpr (.inr (.inl ⟨p, hp, rfl⟩)))))
      fun _ ↦ ⟨_, rfl⟩
  have hsource : d.sourceSchema.Tells e.sourceSchema :=
    h _ (mem_freeValues.mpr (by simp)) _ (mem_freeValues.mpr (by simp))
  have htarget : d.targetSchema.Tells e.targetSchema :=
    h _ (mem_freeValues.mpr (by simp)) _ (mem_freeValues.mpr (by simp))
  have hmetadata : d.metadata.Tells e.metadata :=
    h _ (mem_freeValues.mpr (by simp)) _ (mem_freeValues.mpr (by simp))
  refine Json.tells_object ?_
  split_ifs <;> simp [hnodes, hedges, hoverlays, hsource, htarget, hmetadata]

theorem eq_of_text_eq (hd : d.WasRead) (he : e.WasRead) (hfree : d.TellsFree e)
    (h : d.text = e.text) : d = e :=
  hd.eq_of_sorted_toJson he (congrArg Json.sorted (tells_toJson hfree h))

/-- The bytes that the checksum is made from. -/
def bytes (d : Document) : List UInt8 := d.text.toUTF8.data.toList

theorem bytes_inj : d.bytes = e.bytes ↔ d.text = e.text := by
  refine ⟨fun h ↦ ?_, fun h ↦ by rw [bytes, bytes, h]⟩
  exact String.toByteArray_inj.mp (ByteArray.ext (Array.toList_inj.mp h))

end Document

/-! ## Checksums -/

namespace Checksum

variable {d e : Document}

/-- A document has the checksum of another one if the same is hashed, or the hash collides. -/
theorem isOf_ofDocument_iff :
    (ofDocument d).isOf e = true ↔ d.text = e.text ∨ Sha256.Collide d.bytes e.bytes := by
  have hhash : (ofDocument d).isOf e = true ↔ Sha256.hash d.bytes = Sha256.hash e.bytes := by
    rw [isOf, decide_eq_true_eq, ← Sha256.hexDigest_eq_iff]
    exact mk.injEq _ _ ▸ Iff.rfl
  rw [hhash, ← Document.bytes_inj, Sha256.Collide]
  by_cases h : d.bytes = e.bytes
  · simp [h]
  · simp [h]

/-- **A checksum sees every edit.**  A document that was read comes back from its JSON form, though
from a text only as far as its numbers do; two such documents with the same JSON form are the same.
If their free values are told apart by their texts, they are the same if they have the same text,
and one has the checksum of the other if and only if they are the same, or the hash collides for
the two. -/
theorem ofDocument_tellsApart (hd : d.WasRead) (he : e.WasRead) :
    d.ComesBack ∧ (d.toJson.sorted = e.toJson.sorted → d = e) ∧
      (d.TellsFree e → (d.text = e.text → d = e) ∧
        ((ofDocument d).isOf e = true ↔ d = e ∨ Sha256.Collide d.bytes e.bytes)) := by
  refine ⟨hd.comesBack, hd.eq_of_sorted_toJson he, fun hfree ↦ ?_⟩
  have htext : d.text = e.text ↔ d = e :=
    ⟨Document.eq_of_text_eq hd he hfree, congrArg Document.text⟩
  exact ⟨htext.mp, by rw [isOf_ofDocument_iff, htext]⟩

/-- A tax of an unknown kind, from the net price to the gross price. -/
def taxed : Document where
  nodes := [⟨"tax", .unknown "vat", some "VAT", .object [("country", .string "AT")]⟩]
  edges := [⟨"in", .source, some "$.net", .node "tax", some "input-0"⟩,
    ⟨"out", .node "tax", none, .target, some "$.gross"⟩]
  overlays := [⟨.target, "$.gross", .object [("type", .string "number")]⟩]

/-- The same without the label. -/
def unlabelled : Document :=
  { taxed with nodes := taxed.nodes.map ({ · with label := none }) }

/-- The label is seen unless the hash collides. -/
theorem ofDocument_tellsApart_taxed : taxed.WasRead ∧ unlabelled.WasRead ∧ taxed.TellsFree unlabelled ∧
    ((ofDocument taxed).isOf unlabelled = true ↔
      Sha256.Collide taxed.bytes unlabelled.bytes) := by
  have hd : taxed.WasRead := ⟨.value, Draft.ofJson taxed.toJson, rfl⟩
  have he : unlabelled.WasRead := ⟨.value, Draft.ofJson unlabelled.toJson, rfl⟩
  have hlegible : ∀ v ∈ taxed.freeValues, v.Legible := by
    intro v hv
    rcases Document.mem_freeValues.mp hv with ⟨n, hn, rfl⟩ | ⟨o, ho, rfl⟩ | rfl | rfl | rfl
    · rw [List.mem_singleton.mp hn]
      exact .object (List.forall_mem_singleton.mpr (.string _))
    · rw [List.mem_singleton.mp ho]
      exact .object (List.forall_mem_singleton.mpr (.string _))
    all_goals exact .null
  have hfree : taxed.TellsFree unlabelled := Document.tellsFree_of_legible hd he hlegible hlegible
  have hne : taxed ≠ unlabelled := nofun
  refine ⟨hd, he, hfree, ?_⟩
  rw [((ofDocument_tellsApart hd he).2.2 hfree).2]
  exact or_iff_right hne

end Checksum

end MappingGraph
