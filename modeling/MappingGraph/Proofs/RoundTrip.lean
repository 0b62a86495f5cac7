import MappingGraph.Proofs.Document.Canonical
import MappingGraph.Proofs.Json.Written

/-!
# Reading compiled mappings back

A compiled mapping is written as JSON for other programs.  Whoever reads it back gets the same
mapping but for one thing: a call to which null settings are passed is read as a call without
settings.  `CompiledMapping.reread` is the mapping as it comes back (`CompiledMapping.readAs_reread`).

For the output of a compilation `Compiler.LosesSettings` names the nodes that such calls come from.
The main theorem, `Compiler.readAs_compile`, says that the output comes back as it was if and only if
there are none and its text is not nested too deeply for a reader of texts.  Two documents follow it,
one whose output comes back and one whose output does not.
-/

set_option autoImplicit false

namespace MappingGraph

/-! ## The parts -/

namespace FieldMapping

/-- The mapping as it is read back. -/
def reread (m : FieldMapping) : FieldMapping := ⟨m.targetPath, m.expression.reread⟩

variable {m : FieldMapping}

theorem reads_toJson (h : m.expression.Canonical) : decode.Reads m.toJson m.reread :=
  (Fields.Gives.found rfl (Decoder.reads_string m.targetPath)
    (.found rfl (Expr.reads_decode h) .nil)).reads

theorem reread_eq_self_iff : m.reread = m ↔ ∀ a ∈ m.expression.atoms, a.isNullCall = false := by
  rw [← Expr.reread_eq_self_iff]
  cases m
  simp [reread]

theorem distinct_toJson (h : m.expression.Canonical) : m.toJson.Distinct :=
  .object (by simp [Members.keys])
    (by simp [Expr.distinct_toJson h, Json.AllObjects.string])

end FieldMapping

namespace SharedExpression

/-- The shared value as it is read back. -/
def reread (s : SharedExpression) : SharedExpression :=
  { s with expression := s.expression.reread }

variable {s : SharedExpression}

theorem reads_toJson (h : s.expression.Canonical) : decode.Reads s.toJson s.reread := by
  obtain ⟨node, varName, expression, hintName, refCount⟩ := s
  have hexpr : Expr.decode.Reads expression.toJson expression.reread := Expr.reads_decode h
  cases hintName <;>
    exact (Fields.Gives.found rfl (Decoder.reads_string node)
      (.found rfl (Decoder.reads_string varName) (.found rfl hexpr
        (.optionalString rfl (.found rfl (Decoder.reads_natural refCount) .nil))))).reads
      (by simp [Fields.keys]) (by simp [Members.keys, Fields.keys, optionalMember])

theorem reread_eq_self_iff : s.reread = s ↔ ∀ a ∈ s.expression.atoms, a.isNullCall = false := by
  rw [← Expr.reread_eq_self_iff]
  cases s
  simp [reread]

theorem distinct_toJson (h : s.expression.Canonical) : s.toJson.Distinct := by
  have hexpr := Expr.distinct_toJson h
  obtain ⟨node, varName, expression, hintName, refCount⟩ := s
  cases hintName with
  | none =>
    exact .object (by simp [Members.keys, optionalMember])
      (by simp [optionalMember, hexpr, Json.ofNat, Json.AllObjects.string, Json.AllObjects.number])
  | some name =>
    exact .object (by simp [Members.keys, optionalMember])
      (by simp [optionalMember, hexpr, Json.ofNat, Json.AllObjects.string, Json.AllObjects.number])

end SharedExpression

namespace CompiledMapping

/-- The compiled mapping as it is read back: no call in it has settings that are null. -/
def reread (m : CompiledMapping) : CompiledMapping :=
  { m with mappings := m.mappings.map .reread, shared := m.shared.map .reread }

variable {m : CompiledMapping}

theorem Canonical.mapping (h : m.Canonical) {f : FieldMapping} (hf : f ∈ m.mappings) :
    f.expression.Canonical := fun a ha ↦ h.expressions a (.inl ⟨f, hf, ha⟩)

theorem Canonical.sharedExpression (h : m.Canonical) {s : SharedExpression} (hs : s ∈ m.shared) :
    s.expression.Canonical := fun a ha ↦ h.expressions a (.inr ⟨s, hs, ha⟩)

theorem reads_toJson (h : m.Canonical) : decode.Reads m.toJson m.reread := by
  have hmappings : (Decoder.list FieldMapping.decode).Reads
      (.array (m.mappings.map FieldMapping.toJson)) (m.mappings.map .reread) :=
    Decoder.reads_list_map fun f hf ↦ FieldMapping.reads_toJson (h.mapping hf)
  have hshared : (Decoder.list SharedExpression.decode).Reads
      (.array (m.shared.map SharedExpression.toJson)) (m.shared.map .reread) :=
    Decoder.reads_list_map fun s hs ↦ SharedExpression.reads_toJson (h.sharedExpression hs)
  have hschemas : Schemas.decode.Reads m.schemas.toJson m.schemas :=
    (Fields.Gives.found rfl (Decoder.reads_json h.sourceSchema)
      (.found rfl (Decoder.reads_json h.targetSchema) .nil)).reads
  have hchecksum : Checksum.decode.Reads m.checksum.toJson m.checksum :=
    (Decoder.reads_string m.checksum.text).map Checksum.mk
  obtain ⟨mappings, shared, schemas, metadata, checksum⟩ := m
  cases shared with
  | nil =>
    exact (Fields.Gives.found rfl hmappings (.absent rfl rfl (.found rfl hschemas
      (.found rfl (Decoder.reads_json h.metadata) (.found rfl hchecksum .nil))))).reads
  | cons s shared =>
    exact (Fields.Gives.found rfl hmappings (.found rfl hshared (.found rfl hschemas
      (.found rfl (Decoder.reads_json h.metadata) (.found rfl hchecksum .nil))))).reads

/-- No object of the JSON form has a key twice. -/
theorem distinct_toJson (h : m.Canonical) : m.toJson.Distinct := by
  have hmappings : (Json.array (m.mappings.map FieldMapping.toJson)).Distinct :=
    .array (List.forall_mem_map.mpr fun f hf ↦ FieldMapping.distinct_toJson (h.mapping hf))
  have hshared : (Json.array (m.shared.map SharedExpression.toJson)).Distinct :=
    .array (List.forall_mem_map.mpr fun s hs ↦
      SharedExpression.distinct_toJson (h.sharedExpression hs))
  have hschemas : m.schemas.toJson.Distinct :=
    .object (by simp [Members.keys]) (by simp [h.sourceSchema.distinct, h.targetSchema.distinct])
  have hmetadata := h.metadata.distinct
  obtain ⟨mappings, shared, schemas, metadata, checksum⟩ := m
  cases shared with
  | nil =>
    exact .object (by simp [Members.keys])
      (by simp [hmappings, hschemas, hmetadata, Checksum.toJson, Json.AllObjects.string])
  | cons s shared =>
    rw [List.map_cons] at hshared
    exact .object (by simp [Members.keys])
      (by simp [hmappings, hshared, hschemas, hmetadata, Checksum.toJson, Json.AllObjects.string])

/-- Nothing gets lost if and only if no call has settings that are null. -/
theorem reread_eq_self_iff : m.reread = m ↔ ∀ a, m.Has a → a.isNullCall = false := by
  obtain ⟨mappings, shared, schemas, metadata, checksum⟩ := m
  simp only [reread, mk.injEq, and_true, map_eq_self_iff, FieldMapping.reread_eq_self_iff,
    SharedExpression.reread_eq_self_iff]
  exact ⟨fun ⟨hm, hs⟩ a ha ↦ ha.elim (fun ⟨f, hf, ha⟩ ↦ hm f hf a ha) fun ⟨s, hs', ha⟩ ↦
    hs s hs' a ha, fun h ↦ ⟨fun f hf a ha ↦ h a (.inl ⟨f, hf, ha⟩), fun s hs a ha ↦
      h a (.inr ⟨s, hs, ha⟩)⟩⟩

/-! ## Reading a whole mapping -/

/-- What is read from the JSON form of a compiled mapping: from a value, whatever the order of its
members, and from its texts, unless they are nested too deeply. -/
structure ReadAs (m r : CompiledMapping) : Prop where
  ofJson : ∀ w : Json, w.Rearranges m.toJson → Decoder.ofJson? decode w = .ok r
  ofText : m.toJson.Legible → ∀ text ∈ m.toJson.texts, Decoder.ofText? decode text =
    if m.toJson.depth ≤ Standing.textRoom then .ok r else .error (.syntaxFault .tooDeep)

/-- The compiled mapping itself is read from its JSON form. -/
structure RoundTrips (m : CompiledMapping) : Prop where
  ofJson : ∀ w : Json, w.Rearranges m.toJson → Decoder.ofJson? decode w = .ok m
  ofText : m.toJson.Legible → ∀ text ∈ m.toJson.texts, Decoder.ofText? decode text = .ok m

theorem readAs_reread (h : m.Canonical) : m.ReadAs m.reread where
  ofJson w hw := reads_toJson h w hw .value
  ofText hlegible _ htext :=
    (reads_toJson h).ofText?_eq (distinct_toJson h).rearranges hlegible htext

theorem roundTrips_iff {r : CompiledMapping} (hdistinct : m.toJson.Distinct) (h : m.ReadAs r) :
    m.RoundTrips ↔ r = m ∧ (m.toJson.Legible → m.toJson.depth ≤ Standing.textRoom) := by
  constructor
  · intro hm
    have heq := (h.ofJson _ hdistinct.rearranges).symm.trans (hm.ofJson _ hdistinct.rearranges)
    refine ⟨Except.ok.inj heq, fun hlegible ↦ ?_⟩
    have htext : m.toJson.compact ∈ m.toJson.texts := List.mem_cons_self
    have heq := (h.ofText hlegible _ htext).symm.trans (hm.ofText hlegible _ htext)
    by_contra hdepth
    rw [if_neg hdepth] at heq
    cases heq
  · rintro ⟨rfl, hdepth⟩
    refine ⟨h.ofJson, fun hlegible text htext ↦ ?_⟩
    rw [h.ofText hlegible text htext, if_pos (hdepth hlegible)]

end CompiledMapping

/-! ## Which nodes pass null settings along -/

/-- The settings are null and are passed to a function that is defined elsewhere. -/
def Node.PassesNull (registry : Registry) (node : Node) : Prop :=
  registry.contains node.kind = true ∧ node.kind = .customFunction ∧ node.config = .null

theorem Node.passesNull_iff {registry : Registry} {node : Node} :
    node.PassesNull registry ↔ ∃ function, node.callee? registry = some (function, some .null) := by
  constructor
  · rintro ⟨hregistered, hkind, hconfig⟩
    refine ⟨Rule.functionName node.config, ?_⟩
    rw [callee?, if_pos hregistered, hkind, ← hconfig]
    rfl
  · rintro ⟨function, h⟩
    refine ⟨?_, kind_of_callee?_some h, (config_of_callee? h).symm⟩
    by_contra hregistered
    rw [callee?, if_neg hregistered] at h
    cases h

theorem Atom.isNullCall_iff {a : Atom} :
    a.isNullCall = true ↔ ∃ function, a = .call function (some .null) := by
  rcases a with _ | _ | ⟨function, _ | (_ | _ | _ | _ | _ | _)⟩ <;> simp [isNullCall, Json.isNull]

theorem Graph.exists_isNullCall_exprOf_iff (g : Graph) {registry : Registry} {node : Node} :
    (∃ a ∈ (g.exprOf registry node).atoms, a.isNullCall = true) ↔ node.PassesNull registry := by
  simp only [Node.passesNull_iff, Atom.isNullCall_iff]
  constructor
  · rintro ⟨_, ha, function, rfl⟩
    refine ⟨function, ?_⟩
    have hcall := Expr.mem_calls_iff (c := (function, some Json.null)).mpr ha
    rwa [calls_exprOf, Option.mem_toList] at hcall
  · rintro ⟨function, h⟩
    refine ⟨_, Expr.mem_calls_iff (c := (function, some Json.null)).mp ?_, function, rfl⟩
    rwa [calls_exprOf, Option.mem_toList]

namespace Compiler

variable (c : Compiler) (d : Document)

/-- The node is built, a field of the target depends on it, and it passes null settings along. -/
def LosesSettings (id : String) : Prop :=
  id ∈ (c.stages d).output.order ∧ c.Feeds d id ∧
    ∃ node, (c.stages d).graph.node? id = some node ∧ node.PassesNull c.registry

theorem exists_isNullCall_iff :
    (∃ a, (c.compile d).output.Has a ∧ a.isNullCall = true) ↔ ∃ id, c.LosesSettings d id := by
  constructor
  · rintro ⟨a, ha, hnull⟩
    cases c.origin_of_has d ha with
    | field _ _ h => rw [h] at hnull; cases hnull
    | null h => rw [h] at hnull; cases hnull
    | @node id e hmem hfeeds ha =>
      have hbuilt := hmem
      rw [stages_output] at hmem
      obtain ⟨node, hnode, rfl⟩ := Graph.exists_node?_of_mem_built hmem
      exact ⟨id, List.mem_map_of_mem hbuilt, hfeeds, node, hnode,
        (Graph.exists_isNullCall_exprOf_iff _).mp ⟨a, ha, hnull⟩⟩
  · rintro ⟨id, horder, hfeeds, node, hnode, hpasses⟩
    obtain ⟨⟨_, e⟩, hmem, rfl⟩ := List.mem_map.mp horder
    obtain ⟨node', hnode', rfl⟩ := Graph.exists_node?_of_mem_built (c.stages_output d ▸ hmem)
    cases hnode.symm.trans hnode'
    obtain ⟨a, ha, hnull⟩ := (Graph.exists_isNullCall_exprOf_iff (c.stages d).graph).mpr hpasses
    exact ⟨a, c.has_of_feeds d hmem hfeeds ha, hnull⟩

theorem reread_eq_self_iff :
    (c.compile d).output.reread = (c.compile d).output ↔ ∀ id, ¬ c.LosesSettings d id := by
  rw [CompiledMapping.reread_eq_self_iff, ← not_exists, ← exists_isNullCall_iff, not_exists]
  simp only [not_and, Bool.not_eq_true]

variable {d}

/-- **What becomes of the output in JSON.**  It is read back but for null settings of calls, so that
it comes back as it was if and only if no field of the target depends on a node that loses its
settings, and its text is not nested more deeply than texts may be. -/
theorem readAs_compile (hd : d.Canonical) :
    (c.compile d).output.ReadAs (c.compile d).output.reread ∧
      ((c.compile d).output.RoundTrips ↔ (∀ id, ¬ c.LosesSettings d id) ∧
        ((c.compile d).output.toJson.Legible →
          (c.compile d).output.toJson.depth ≤ Standing.textRoom)) := by
  have hcanonical := c.canonical_compile hd
  have hread := CompiledMapping.readAs_reread hcanonical
  refine ⟨hread, ?_⟩
  rw [CompiledMapping.roundTrips_iff (CompiledMapping.distinct_toJson hcanonical) hread,
    reread_eq_self_iff]

/-- A function that is defined elsewhere makes a field of the target. -/
def slug : Document where
  nodes := [⟨"f", .customFunction, none, .object [("functionName", .string "slug")]⟩]
  edges := [⟨"e", .node "f", none, .target, some "$.a"⟩]

/-- Its settings are read back with everything else. -/
theorem readAs_slug : slug.Canonical ∧
    (({} : Compiler).compile slug).output.ReadAs (({} : Compiler).compile slug).output := by
  have hcanonical : slug.Canonical :=
    { configs := fun _ h ↦ List.mem_singleton.mp h ▸
        .object (List.pairwise_singleton _ _) (List.forall_mem_singleton.mpr (.string _))
      sourceSchema := .null
      targetSchema := .null
      patches := fun _ h ↦ absurd h List.not_mem_nil
      metadata := .null }
  have hkept := (({} : Compiler).reread_eq_self_iff slug).mpr <| by
    rintro id ⟨_, _, node, hnode, _, _, hnull⟩
    have hmem : node ∈ slug.nodes := Graph.mem_of_mem_firstById (List.mem_of_find?_eq_some hnode)
    cases List.mem_singleton.mp hmem
    cases hnull
  have hread := (({} : Compiler).readAs_compile hcanonical).1
  rw [hkept] at hread
  exact ⟨hcanonical, hread⟩

/-- The same without settings. -/
def unsetFunction : Document where
  nodes := [⟨"f", .customFunction, none, .null⟩]
  edges := [⟨"e", .node "f", none, .target, some "$.a"⟩]

theorem losesSettings_unsetFunction : ({} : Compiler).LosesSettings unsetFunction "f" := by
  have horder : (({} : Compiler).stages unsetFunction).output.order = ["f"] := rfl
  have hnode : (({} : Compiler).stages unsetFunction).graph.node? "f" =
      some ⟨"f", .customFunction, none, .null⟩ := rfl
  have hedges : (({} : Compiler).stages unsetFunction).graph.targetEdges =
      unsetFunction.edges := rfl
  rw [LosesSettings, Feeds, Graph.Feeds, horder, hedges, hnode]
  exact ⟨List.mem_singleton_self _, ⟨_, List.mem_cons_self, "f", rfl, .refl⟩, _, rfl, rfl, rfl, rfl⟩

/-- Its settings come back as none at all. -/
theorem not_roundTrips_unsetFunction :
    ¬ (({} : Compiler).compile unsetFunction).output.RoundTrips := by
  intro h
  have hd : unsetFunction.Canonical :=
    { configs := fun _ h ↦ List.mem_singleton.mp h ▸ .null
      sourceSchema := .null
      targetSchema := .null
      patches := fun _ h ↦ absurd h List.not_mem_nil
      metadata := .null }
  have hcanonical := ({} : Compiler).canonical_compile hd
  rw [CompiledMapping.roundTrips_iff (CompiledMapping.distinct_toJson hcanonical)
    (CompiledMapping.readAs_reread hcanonical), reread_eq_self_iff] at h
  exact h.1 "f" losesSettings_unsetFunction

end Compiler

end MappingGraph
