import MappingGraph.Proofs.Purity

/-!
# What is written into the output

The expressions of the output are put together of those of many nodes, some inlined and some shared.
`CompiledMapping.Has` says that an atom stands somewhere in it, and the two main theorems tell which
atoms do: besides the fields and nulls that edges bring in directly only those of built nodes that a
field of the target depends on (`Compiler.origin_of_has`), and of these all
(`Compiler.has_of_feeds`).
-/

set_option autoImplicit false

namespace MappingGraph

/-- The atom stands in a mapping or in a shared value. -/
def CompiledMapping.Has (out : CompiledMapping) (a : Atom) : Prop :=
  (∃ m ∈ out.mappings, a ∈ m.expression.atoms) ∨ ∃ s ∈ out.shared, a ∈ s.expression.atoms

namespace Compiler

variable (c : Compiler) (d : Document) {a : Atom}

/-- A field of the target depends on the built node. -/
def Feeds (id : String) : Prop := (c.stages d).graph.Feeds (c.stages d).output.built id

theorem feeds_iff {id : String} :
    c.Feeds d id ↔ (c.stages d).graph.Feeds (c.resolver d).latestFirst id := by
  rw [Feeds, Graph.Feeds, Graph.Feeds, uses_resolver]

/-- Where an atom of the output comes from. -/
inductive Origin (a : Atom) : Prop
  /-- An edge leads from the source to the target. -/
  | field {e : Edge} (he : e ∈ (c.stages d).graph.targetEdges) (hs : e.source = .source)
    (ha : a = .field (Handle.cleanPath e.sourcePath))
  /-- An edge leads from the target to the target, or from a node that was not built. -/
  | null (ha : a = .literal .null .null)
  /-- The atom belongs to a node. -/
  | node {id : String} {e : BuiltExpr} (hmem : (id, e) ∈ (c.stages d).output.built)
    (hfeeds : c.Feeds d id) (ha : a ∈ e.atoms)

/-- An atom of the value of a node comes from there, if the target depends on the node. -/
theorem origin_of_mem_value {id : String} (hid : c.Feeds d id)
    (ha : a ∈ ((c.resolver d).value id).atoms) : c.Origin d a := by
  rcases Graph.exists_of_mem_atoms_value (c.resolver_latestFirst d) ha with
    ha | ⟨n, e, hway, hmem, ha⟩
  · exact .null ha
  · obtain ⟨edge, he, start, hs, hstart⟩ := hid
    have hway := Resolver.uses_of_inlines hway
    rw [uses_resolver] at hway
    exact .node ((c.mem_latestFirst_iff d).mp hmem) ⟨edge, he, start, hs, hstart.trans hway⟩ ha

/-- **Whatever stands in the output** was brought in by an edge or by a node that a field of the
target depends on. -/
theorem origin_of_has (h : (c.compile d).output.Has a) : c.Origin d a := by
  rcases h with ⟨m, hm, ha⟩ | ⟨s, hs, ha⟩
  · rw [mappings_compile] at hm
    obtain ⟨e, he, rfl⟩ := List.mem_map.mp hm
    change a ∈ ((c.resolver d).ofEdge e).atoms at ha
    rw [Resolver.ofEdge] at ha
    cases hsource : e.source with
    | source =>
      rw [hsource] at ha
      exact .field he hsource (List.mem_singleton.mp ha)
    | target =>
      rw [hsource] at ha
      exact .null (List.mem_singleton.mp ha)
    | node id =>
      rw [hsource] at ha
      change a ∈ ((c.resolver d).use id).atoms at ha
      cases hv : (c.resolver d).sharing.varName? id with
      | some varName =>
        rw [Resolver.use_of_varName? hv] at ha
        exact absurd ha List.not_mem_nil
      | none =>
        rw [Resolver.use_of_varName?_eq_none hv] at ha
        exact c.origin_of_mem_value d ⟨e, he, id, hsource, .refl⟩ ha
  · obtain ⟨hmem, hlive⟩ := (c.mem_shared_iff d).mp hs
    obtain ⟨n, _, rfl⟩ := List.mem_map.mp hmem
    exact c.origin_of_mem_value d
      ((c.feeds_iff d).mpr (Graph.feeds_of_mem_live (c.resolver_latestFirst d) hlive)) ha

/-- The value of a shared node that the target depends on is written down. -/
theorem has_of_shared {id varName : String} (hid : c.Feeds d id)
    (hv : (c.resolver d).sharing.varName? id = some varName)
    (ha : a ∈ ((c.resolver d).value id).atoms) : (c.compile d).output.Has a := by
  obtain ⟨n, hn, rfl, _⟩ := Sharing.exists_of_varName? hv
  have hshared : (c.stages d).graph.sharedOf c.registry (c.resolver d) n ∈
      (c.stages d).graph.sharedBy c.registry (c.resolver d) := List.mem_map_of_mem hn
  have hlive := (@Graph.mem_live_iff _ c.registry _ _ (c.resolver_latestFirst d)
    (List.mem_map_of_mem hn)).mpr ((c.feeds_iff d).mp hid)
  exact .inr ⟨_, (c.mem_shared_iff d).mpr ⟨hshared, hlive⟩, ha⟩

/-- **Every node that a field of the target depends on is written down** with all its atoms.  The
induction is on the way from the field: a node that is not shared stands in the value of the one
before it. -/
theorem has_of_feeds {id : String} {e : BuiltExpr} (hmem : (id, e) ∈ (c.stages d).output.built)
    (hid : c.Feeds d id) (ha : a ∈ e.atoms) : (c.compile d).output.Has a := by
  have hl := c.resolver_latestFirst d
  suffices ∀ b ∈ ((c.resolver d).value id).atoms, (c.compile d).output.Has b by
    refine this a ?_
    rw [Resolver.value_eq hl ((c.mem_latestFirst_iff d).mpr hmem)]
    exact Expr.mem_atoms_mapRefs.mpr (.inl ha)
  clear hmem ha
  obtain ⟨edge, hedge, start, hstart, hway⟩ := hid
  induction hway with
  | refl =>
    intro b hb
    cases hv : (c.resolver d).sharing.varName? start with
    | some varName => exact c.has_of_shared d ⟨edge, hedge, start, hstart, .refl⟩ hv hb
    | none =>
      refine .inl ⟨⟨Handle.cleanPath edge.targetPath, (c.resolver d).ofEdge edge⟩, ?_, ?_⟩
      · rw [mappings_compile]
        exact List.mem_map_of_mem hedge
      · rw [Resolver.ofEdge, hstart]
        change b ∈ ((c.resolver d).use start).atoms
        rwa [Resolver.use_of_varName?_eq_none hv]
  | @tail n id hbefore huses ih =>
    intro b hb
    cases hv : (c.resolver d).sharing.varName? id with
    | some varName =>
      exact c.has_of_shared d ⟨edge, hedge, start, hstart, hbefore.tail huses⟩ hv hb
    | none =>
      obtain ⟨x, hx, p, hp, rfl⟩ := huses
      refine ih b ?_
      rw [Resolver.value_eq hl ((c.mem_latestFirst_iff d).mpr hx), Expr.mem_atoms_mapRefs]
      exact .inr ⟨p, hp, by rwa [Resolver.use_of_varName?_eq_none hv]⟩

end Compiler

end MappingGraph
