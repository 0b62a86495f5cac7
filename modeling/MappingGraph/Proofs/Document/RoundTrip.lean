import MappingGraph.Proofs.Document.Canonical
import MappingGraph.Proofs.Json.Written

/-!
# Reading documents back

Kinds and ends of edges are written as names, and not every one is what its name is read as: an
unnamed kind may have the name of a known one, and a node the id that stands for a schema.  Neither
is ever read, and so a document that was read (`Document.WasRead`) is read back from its JSON form
(`Document.WasRead.comesBack`).  `Document.wasRead_iff` says which documents these are.

From a text, numbers need not come back as they were, and neither need documents
(`Document.not_comesBack_measured`).  `Document.reread` is what comes back of a document then.
-/

set_option autoImplicit false

namespace MappingGraph

/-! ## Names -/

namespace Kind

/-- The kind is the one that its name stands for. -/
def Named (k : Kind) : Prop := ofName k.name = k

theorem name_ofName (name : String) : (ofName name).name = name := by
  rw [ofName]
  cases hfind : all.find? (·.name = name) with
  | none => rfl
  | some k =>
    have hname := List.find?_some hfind
    exact of_decide_eq_true hname

theorem named_ofName (name : String) : (ofName name).Named := by
  rw [Named, name_ofName]

theorem ensures_decode : decode.Ensures Named := by
  intro standing d k h
  obtain ⟨name, -, rfl⟩ := exists_of_map_eq_ok h
  exact named_ofName name

theorem Named.reads {k : Kind} (h : k.Named) : decode.Reads k.toJson k := by
  have hread := (Decoder.reads_string k.name).map ofName
  rwa [h] at hread

end Kind

namespace Endpoint

/-- The end is the one that its id stands for. -/
def Named (e : Endpoint) : Prop := ofId e.id = e

theorem id_ofId (id : String) : (ofId id).id = id := by
  rw [ofId]
  split_ifs with hsource htarget
  · exact hsource.symm
  · exact htarget.symm
  · rfl

theorem named_ofId (id : String) : (ofId id).Named := by
  rw [Named, id_ofId]

theorem ensures_decode : decode.Ensures Named := by
  intro standing d e h
  obtain ⟨id, -, rfl⟩ := exists_of_map_eq_ok h
  exact named_ofId id

theorem Named.reads {e : Endpoint} (h : e.Named) : decode.Reads e.toJson e := by
  have hread := (Decoder.reads_string e.id).map ofId
  rwa [h] at hread

end Endpoint

theorem Side.reads_toJson (side : Side) : decode.Reads side.toJson side :=
  Decoder.reads_choice (by cases side <;> rfl)

/-! ## The parts -/

namespace Overlay

variable {o : Overlay}

theorem reads_toJson (h : o.patch.Canonical) : decode.Reads o.toJson o :=
  (Fields.Gives.found rfl o.side.reads_toJson
    (.found rfl (Decoder.reads_string o.path) (.found rfl (Decoder.reads_json h) .nil))).reads

theorem distinct_toJson (h : o.patch.Canonical) : o.toJson.Distinct :=
  .object (by simp [Members.keys])
    (by simp [h.distinct, Side.toJson, Json.AllObjects.string])

end Overlay

namespace Node

variable {n : Node}

theorem reads_toJson (hkind : n.kind.Named) (hconfig : n.config.Canonical) :
    decode.Reads n.toJson n := by
  obtain ⟨id, kind, label, config⟩ := n
  have hread := Decoder.reads_json hconfig
  cases label <;>
    exact (Fields.Gives.found rfl (Decoder.reads_string id) (.found rfl hkind.reads
      (.optionalString rfl (.found rfl hread .nil)))).reads
      (by simp [Fields.keys]) (by simp [Members.keys, Fields.keys, optionalMember])

theorem distinct_toJson (h : n.config.Canonical) : n.toJson.Distinct := by
  obtain ⟨id, kind, label, config⟩ := n
  have hconfig := h.distinct
  cases label <;>
    exact .object (by simp [Members.keys, optionalMember])
      (by simp [optionalMember, hconfig, Kind.toJson, Json.AllObjects.string])

end Node

namespace Edge

variable {e : Edge}

theorem reads_toJson (hsource : e.source.Named) (htarget : e.target.Named) :
    decode.Reads e.toJson e := by
  obtain ⟨id, start, startHandle, stop, stopHandle⟩ := e
  cases startHandle <;> cases stopHandle <;>
    exact (Fields.Gives.found rfl (Decoder.reads_string id) (.found rfl hsource.reads
      (.optionalString rfl (.found rfl htarget.reads (.optionalString rfl .nil))))).reads
      (by simp [Fields.keys]) (by simp [Members.keys, Fields.keys, optionalMember])

theorem distinct_toJson (e : Edge) : e.toJson.Distinct := by
  obtain ⟨id, start, startHandle, stop, stopHandle⟩ := e
  cases startHandle <;> cases stopHandle <;>
    exact .object (by simp [Members.keys, optionalMember])
      (by simp [optionalMember, Endpoint.toJson, Json.AllObjects.string])

end Edge

/-! ## Documents -/

namespace Document

variable {d e : Document}

/-- The document was read from somewhere. -/
def WasRead (d : Document) : Prop := ∃ standing draft, decode standing draft = .ok d

/-- The kinds and the ends of edges are those that their names stand for. -/
structure Named (d : Document) : Prop where
  kinds : ∀ n ∈ d.nodes, n.kind.Named
  ends : ∀ e ∈ d.edges, e.source.Named ∧ e.target.Named

theorem ensures_decode_named : decode.Ensures Named := by
  have hnode : Node.decode.Ensures fun n ↦ n.kind.Named :=
    Fields.Ensures.decode
      (.skip (.cons Kind.ensures_decode nofun (.skip (.skip .nil))))
      fun _ h ↦ h.2.1
  have hedge : Edge.decode.Ensures fun e ↦ e.source.Named ∧ e.target.Named :=
    Fields.Ensures.decode
      (.skip (.cons Endpoint.ensures_decode nofun
        (.skip (.cons Endpoint.ensures_decode nofun (.skip .nil)))))
      fun _ h ↦ ⟨h.2.1, h.2.2.2.1⟩
  exact Fields.Ensures.decode
    (.cons hnode.list (fun _ h ↦ Option.some.inj h ▸ List.forall_mem_nil _)
      (.cons hedge.list (fun _ h ↦ Option.some.inj h ▸ List.forall_mem_nil _)
        (.skip (.skip (.skip (.skip .nil))))))
    fun _ h ↦ ⟨h.1, h.2.1⟩

theorem WasRead.canonical (h : d.WasRead) : d.Canonical := by
  obtain ⟨_, _, h⟩ := h
  exact ensures_decode h

theorem WasRead.named (h : d.WasRead) : d.Named := by
  obtain ⟨_, _, h⟩ := h
  exact ensures_decode_named h

theorem reads_toJson (hd : d.Canonical) (hnamed : d.Named) : decode.Reads d.toJson d := by
  have hnodes : (Decoder.list Node.decode).Reads (.array (d.nodes.map Node.toJson))
      (d.nodes.map id) :=
    Decoder.reads_list_map fun n hn ↦ Node.reads_toJson (hnamed.kinds n hn) (hd.configs n hn)
  have hedges : (Decoder.list Edge.decode).Reads (.array (d.edges.map Edge.toJson))
      (d.edges.map id) :=
    Decoder.reads_list_map fun e he ↦
      Edge.reads_toJson (hnamed.ends e he).1 (hnamed.ends e he).2
  have hoverlays : (Decoder.list Overlay.decode).Reads (.array (d.overlays.map Overlay.toJson))
      (d.overlays.map id) :=
    Decoder.reads_list_map fun o ho ↦ Overlay.reads_toJson (hd.patches o ho)
  rw [List.map_id] at hnodes hedges hoverlays
  have hsource := Decoder.reads_json hd.sourceSchema
  have htarget := Decoder.reads_json hd.targetSchema
  have hmetadata := Decoder.reads_json hd.metadata
  obtain ⟨nodes, edges, sourceSchema, targetSchema, overlays, metadata⟩ := d
  cases overlays with
  | nil =>
    exact (Fields.Gives.found rfl hnodes (.found rfl hedges (.found rfl hsource
      (.found rfl htarget (.absent rfl rfl (.found rfl hmetadata .nil)))))).reads
  | cons o overlays =>
    exact (Fields.Gives.found rfl hnodes (.found rfl hedges (.found rfl hsource
      (.found rfl htarget (.found rfl hoverlays (.found rfl hmetadata .nil)))))).reads

theorem distinct_toJson (hd : d.Canonical) : d.toJson.Distinct := by
  have hnodes : (Json.array (d.nodes.map Node.toJson)).Distinct :=
    .array (List.forall_mem_map.mpr fun n hn ↦ Node.distinct_toJson (hd.configs n hn))
  have hedges : (Json.array (d.edges.map Edge.toJson)).Distinct :=
    .array (List.forall_mem_map.mpr fun e _ ↦ e.distinct_toJson)
  have hoverlays : (Json.array (d.overlays.map Overlay.toJson)).Distinct :=
    .array (List.forall_mem_map.mpr fun o ho ↦ Overlay.distinct_toJson (hd.patches o ho))
  have hsource := hd.sourceSchema.distinct
  have htarget := hd.targetSchema.distinct
  have hmetadata := hd.metadata.distinct
  obtain ⟨nodes, edges, sourceSchema, targetSchema, overlays, metadata⟩ := d
  cases overlays with
  | nil =>
    exact .object (by simp [Members.keys])
      (by simp [hnodes, hedges, hsource, htarget, hmetadata])
  | cons o overlays =>
    rw [List.map_cons] at hoverlays
    exact .object (by simp [Members.keys])
      (by simp [hnodes, hedges, hoverlays, hsource, htarget, hmetadata])

/-- **Which documents are read at all.** -/
theorem wasRead_iff : d.WasRead ↔ d.Canonical ∧ d.Named := by
  refine ⟨fun h ↦ ⟨h.canonical, h.named⟩, fun ⟨hd, hnamed⟩ ↦ ?_⟩
  exact ⟨.value, _, reads_toJson hd hnamed _ (distinct_toJson hd).rearranges .value⟩

end Document

/-! ## Documents from texts -/

/-- The settings of a node stand one level further inside. -/
theorem Node.ensuresAt_fits (room : Nat) :
    decode.EnsuresAt Draft.Representable (.text (room + 1)) fun n ↦ n.toJson.Fits (room + 1) :=
  Fields.EnsuresAt.decode_text Draft.hereditary_representable
    (.skip (.skip (.skip
      (.cons (Decoder.ensuresAt_json room) (fun _ h ↦ Option.some.inj h ▸ Json.fits_null room)
        .nil))))
    fun (id, kind, label, config, _) ⟨_, _, _, h, _⟩ ↦ Json.fits_object_iff.mpr <| by
      cases label <;> simpa [optionalMember, Kind.toJson] using h

theorem Edge.fits_toJson (e : Edge) (n : Nat) : e.toJson.Fits (n + 1) := by
  refine Json.fits_object_iff.mpr ?_
  obtain ⟨id, start, startHandle, stop, stopHandle⟩ := e
  cases startHandle <;> cases stopHandle <;>
    simp [optionalMember, Endpoint.toJson]

theorem Overlay.ensuresAt_fits (room : Nat) :
    decode.EnsuresAt Draft.Representable (.text (room + 1)) fun o ↦ o.toJson.Fits (room + 1) :=
  Fields.EnsuresAt.decode_text Draft.hereditary_representable
    (.skip (.skip (.cons (Decoder.ensuresAt_json room) nofun .nil)))
    fun (side, path, patch, _) ⟨_, _, h, _⟩ ↦ Json.fits_object_iff.mpr <| by
      simpa [Side.toJson] using h

namespace Document

theorem fits_toJson {d : Document} {n : Nat}
    (hnodes : ∀ m ∈ d.nodes, m.toJson.Fits (n + 1)) (hsource : d.sourceSchema.Fits (n + 2))
    (htarget : d.targetSchema.Fits (n + 2)) (hoverlays : ∀ o ∈ d.overlays, o.toJson.Fits (n + 1))
    (hmetadata : d.metadata.Fits (n + 2)) : d.toJson.Fits (n + 3) := by
  refine Json.fits_object_iff.mpr ?_
  have hnodes : (Json.array (d.nodes.map Node.toJson)).Fits (n + 2) :=
    Json.fits_array_iff.mpr (List.forall_mem_map.mpr hnodes)
  have hedges : (Json.array (d.edges.map Edge.toJson)).Fits (n + 2) :=
    Json.fits_array_iff.mpr (List.forall_mem_map.mpr fun e _ ↦ e.fits_toJson n)
  have hoverlays : (Json.array (d.overlays.map Overlay.toJson)).Fits (n + 2) :=
    Json.fits_array_iff.mpr (List.forall_mem_map.mpr hoverlays)
  split_ifs <;> simp [hnodes, hedges, hsource, htarget, hoverlays, hmetadata]

/-- With room for an object in an array in a document, a document fits where it was read. -/
theorem ensuresAt_fits (room : Nat) :
    decode.EnsuresAt Draft.Representable (.text (room + 3)) fun d ↦ d.toJson.Fits (room + 3) :=
  have hjson := Decoder.ensuresAt_json (room + 2)
  have habsent := fun (v : Json) (h : some Json.null = some v) ↦
    Option.some.inj h ▸ Json.fits_null (room + 2)
  have hparts := Draft.hereditary_representable
  Fields.EnsuresAt.decode_text hparts
    (.cons ((Node.ensuresAt_fits room).list_text hparts)
        (fun _ h ↦ Option.some.inj h ▸ List.forall_mem_nil _)
      (.skip (.cons hjson habsent (.cons hjson habsent
        (.cons ((Overlay.ensuresAt_fits room).list_text hparts)
            (fun _ h ↦ Option.some.inj h ▸ List.forall_mem_nil _)
          (.cons hjson habsent .nil))))))
    fun _ ⟨hnodes, _, hsource, htarget, hoverlays, hmetadata, _⟩ ↦
      fits_toJson hnodes hsource htarget hoverlays hmetadata

/-- **A document from a text fits into texts.** -/
theorem fits_of_ofText? {text : String} {d : Document} (h : ofText? text = .ok d) :
    d.toJson.Fits Standing.textRoom := by
  obtain ⟨_, hd, h⟩ := exists_of_bind_eq_ok h
  obtain ⟨_, _, h⟩ := exists_of_bind_eq_ok h
  cases h
  exact ensuresAt_fits 124 (Draft.representable_ofText text) hd

/-! ## Numbers in documents -/

end Document

/-- The node with all numbers in its settings as their texts are read. -/
def Node.reread (n : Node) : Node := { n with config := n.config.reread }

theorem Node.toJson_reread (n : Node) : n.reread.toJson = n.toJson.reread := by
  obtain ⟨id, kind, label, config⟩ := n
  cases label <;> rfl

/-- The overlay with all numbers in its patch as their texts are read. -/
def Overlay.reread (o : Overlay) : Overlay := { o with patch := o.patch.reread }

theorem Overlay.toJson_reread (o : Overlay) : o.reread.toJson = o.toJson.reread := rfl

theorem Edge.reread_toJson (e : Edge) : e.toJson.reread = e.toJson := by
  obtain ⟨id, start, startHandle, stop, stopHandle⟩ := e
  cases startHandle <;> cases stopHandle <;> rfl

namespace Document

/-- The document with all numbers as their texts are read. -/
def reread (d : Document) : Document :=
  { d with
    nodes := d.nodes.map .reread
    sourceSchema := d.sourceSchema.reread
    targetSchema := d.targetSchema.reread
    overlays := d.overlays.map .reread
    metadata := d.metadata.reread }

variable {d e : Document}

theorem toJson_reread (d : Document) : d.reread.toJson = d.toJson.reread := by
  have hnodes : (d.nodes.map Node.reread).map Node.toJson =
      (d.nodes.map Node.toJson).map Json.reread := by
    rw [List.map_map, List.map_map]
    exact List.map_congr_left fun n _ ↦ n.toJson_reread
  have hedges : d.edges.map Edge.toJson = (d.edges.map Edge.toJson).map Json.reread := by
    rw [List.map_map]
    exact List.map_congr_left fun e _ ↦ e.reread_toJson.symm
  have hoverlays : (d.overlays.map Overlay.reread).map Overlay.toJson =
      (d.overlays.map Overlay.toJson).map Json.reread := by
    rw [List.map_map, List.map_map]
    exact List.map_congr_left fun o _ ↦ o.toJson_reread
  rw [toJson, toJson, Json.reread_object, reread, hnodes, hoverlays, List.isEmpty_map]
  split_ifs <;> simp [Json.rereadMember, Json.reread_array, ← hedges]

theorem Canonical.reread (h : d.Canonical) : d.reread.Canonical where
  configs := List.forall_mem_map.mpr fun n hn ↦ (h.configs n hn).reread
  sourceSchema := h.sourceSchema.reread
  targetSchema := h.targetSchema.reread
  patches := List.forall_mem_map.mpr fun o ho ↦ (h.patches o ho).reread
  metadata := h.metadata.reread

theorem Named.reread (h : d.Named) : d.reread.Named where
  kinds := List.forall_mem_map.mpr h.kinds
  ends := h.ends

/-! ## Documents from their JSON form -/

/-- The document is read from its JSON form.  It is read from a value, whatever the order of its
members.  What is read from its texts has all numbers as their own texts are read, unless the texts
are nested too deeply.  A document from a text fits into texts, and so this is what is read from its
own. -/
structure ComesBack (d : Document) : Prop where
  ofJson : ∀ w : Json, w.Rearranges d.toJson → Decoder.ofJson? decode w = .ok d
  ofText : d.toJson.Representable → ∀ text ∈ d.toJson.texts, ofText? text =
    if d.toJson.depth ≤ Standing.textRoom then .ok d.reread else .error (.syntaxFault .tooDeep)
  fits : (∃ text, ofText? text = .ok d) → d.toJson.Fits Standing.textRoom
  /-- That is the same document if and only if each number is what its own text is read as. -/
  reread_eq_iff : d.reread = d ↔ d.toJson.AllNumbers fun n ↦ n.reread = n

/-- Two documents with the same JSON form are the same, also if the order of members differs. -/
theorem WasRead.eq_of_sorted_toJson (hd : d.WasRead) (he : e.WasRead)
    (h : d.toJson.sorted = e.toJson.sorted) : d = e := by
  have hrearranges : d.toJson.Rearranges e.toJson :=
    ⟨distinct_toJson hd.canonical, distinct_toJson he.canonical, h⟩
  have hself := reads_toJson hd.canonical hd.named _ hrearranges.distinct_left.rearranges .value
  exact Except.ok.inj (hself.symm.trans (reads_toJson he.canonical he.named _ hrearranges .value))

theorem WasRead.reread (h : d.WasRead) : d.reread.WasRead :=
  wasRead_iff.mpr ⟨h.canonical.reread, h.named.reread⟩

theorem WasRead.reread_eq_iff (h : d.WasRead) : d.reread = d ↔ d.toJson.reread = d.toJson := by
  rw [← toJson_reread]
  exact ⟨congrArg toJson, fun heq ↦ h.reread.eq_of_sorted_toJson h (congrArg Json.sorted heq)⟩

/-- **A document that was read comes back.** -/
theorem WasRead.comesBack (h : d.WasRead) : d.ComesBack where
  ofJson w hw := reads_toJson h.canonical h.named w hw .value
  ofText hrepresentable _ htext :=
    (reads_toJson h.canonical.reread h.named.reread).ofText?_reread
      (toJson_reread d ▸ (distinct_toJson h.canonical.reread).rearranges) hrepresentable.readable
      htext
  fits := fun ⟨_, htext⟩ ↦ fits_of_ofText? htext
  reread_eq_iff := by rw [h.reread_eq_iff, Json.reread_eq_self_iff]

/-- A document with a number for its metadata. -/
def measured (x : Binary64) : Document where
  metadata := .number (.fractional x)

theorem ofText?_measured {x y : Binary64} (hx : x.Representable)
    (h : Json.ofText? x.text = .ok (.number (.fractional y))) :
    ofText? (measured x).text = .ok (measured y) := by
  have hread : (measured x).WasRead := ⟨.value, Draft.ofJson (measured x).toJson, rfl⟩
  have hrepresentable : (measured x).toJson.Representable := .object <| by
    have hempty : (Json.array []).Representable := .array (List.forall_mem_nil _)
    have hnumber : (Json.number (.fractional x)).Representable := .number hx
    simp [measured, hempty, hnumber, Json.AllNumbers.null]
  have hreread : (measured x).reread = measured y :=
    congrArg (fun n ↦ ({ metadata := .number n } : Document))
      (Number.reread_eq_of_ofText? (n := .fractional x) h)
  rw [← hreread]
  exact hread.comesBack.ofText hrepresentable _ List.mem_cons_self

/-- The number nearest to `1e-24` is read as the next one, and the next one as the nearest. -/
theorem not_comesBack_measured :
    ofText? (measured ⟨false, 5444517870735015, -132⟩).text =
        .ok (measured ⟨false, 5444517870735016, -132⟩) ∧
      ofText? (measured ⟨false, 5444517870735016, -132⟩).text =
        .ok (measured ⟨false, 5444517870735015, -132⟩) ∧
      measured ⟨false, 5444517870735015, -132⟩ ≠ measured ⟨false, 5444517870735016, -132⟩ := by
  have hnearest : (⟨false, 5444517870735015, -132⟩ : Binary64).Representable :=
    ⟨by decide, by decide, by decide, .inr (by decide)⟩
  have hnext : (⟨false, 5444517870735016, -132⟩ : Binary64).Representable :=
    ⟨by decide, by decide, by decide, .inr (by decide)⟩
  refine ⟨ofText?_measured hnearest rfl, ofText?_measured hnext rfl, fun h ↦ ?_⟩
  have hmetadata := congrArg metadata h
  simp [measured] at hmetadata

end Document

end MappingGraph
