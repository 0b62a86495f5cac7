import MappingGraph.Proofs.Build.Refs
import MappingGraph.Resolution

/-!
# What a placeholder resolves to

The resolver works with a memo, and it looks a placeholder up among the nodes before the one it is
resolving.  Neither can be seen in its answers.  `Resolver.value` is what a node resolves to without
any memo, and the main results are

* `Resolver.value_eq` — the value of a built node is its expression with every placeholder replaced
  by what a use of that node becomes; the build order has dropped out;
* `Resolver.inline_runs`, `Resolver.resolve_runs` and `Resolver.expand_runs` — from every state that
  was reached so far the resolver answers just that.

`Resolver.Knows` is the invariant of the state.  It carries a list of the unbuilt nodes that were
met, which is what the reports are about: each is reported when it is met first.
-/

set_option autoImplicit false

namespace MappingGraph.Resolver

variable {r : Resolver} {sharing : Sharing} {l earlier : List (String × BuiltExpr)}
  {id n : String} {e : BuiltExpr} {missing : List String}

/-! ## Values -/

/-- What a use of a node becomes, given the value of every node. -/
def useBy (sharing : Sharing) (value : String → Expression) (id : String) : Expression :=
  match sharing.varName? id with
  | some varName => .reference ⟨id, varName⟩
  | none => value id

/-- The value of a node among built nodes, the latest first. -/
def valueAmong (sharing : Sharing) : List (String × BuiltExpr) → String → Expression
  | [], _ => .null
  | (n, e) :: earlier, id =>
    if n = id then e.mapRefs fun p ↦ useBy sharing (valueAmong sharing earlier) p.node
    else valueAmong sharing earlier id

/-- The node's own expression, every placeholder resolved. -/
def value (r : Resolver) (id : String) : Expression := valueAmong r.sharing r.latestFirst id

/-- What a use of the node becomes. -/
def use (r : Resolver) (id : String) : Expression := useBy r.sharing r.value id

theorem useBy_congr {f g : String → Expression} (h : f id = g id) :
    useBy sharing f id = useBy sharing g id := by
  rw [useBy, useBy, h]

theorem valueAmong_of_not_mem (h : id ∉ l.map Prod.fst) : valueAmong sharing l id = .null := by
  induction l with
  | nil => rfl
  | cons p l ih =>
    rw [List.map_cons, List.mem_cons, not_or] at h
    rw [valueAmong, if_neg (Ne.symm h.1), ih h.2]

/-- A later node changes no value of the earlier ones. -/
theorem valueAmong_cons (hl : LatestFirst ((n, e) :: earlier)) (h : id ∈ earlier.map Prod.fst) :
    valueAmong sharing ((n, e) :: earlier) id = valueAmong sharing earlier id := by
  rw [valueAmong, if_neg]
  rintro rfl
  exact hl.1 h

/-- The value of a built node, the build order out of sight. -/
theorem valueAmong_of_mem (hl : LatestFirst l) (h : (n, e) ∈ l) :
    valueAmong sharing l n = e.mapRefs fun p ↦ useBy sharing (valueAmong sharing l) p.node := by
  induction l with
  | nil => exact absurd h List.not_mem_nil
  | cons m earlier ih =>
    obtain ⟨n', e'⟩ := m
    rcases List.mem_cons.mp h with heq | hmem
    · obtain ⟨rfl, rfl⟩ := Prod.mk.inj heq
      rw [valueAmong, if_pos rfl]
      exact Expr.mapRefs_congr fun p hp ↦ useBy_congr (valueAmong_cons hl (hl.2.1 p hp)).symm
    · rw [valueAmong_cons hl (List.mem_map_of_mem hmem), ih hl.2.2 hmem]
      exact Expr.mapRefs_congr fun p hp ↦
        useBy_congr (valueAmong_cons hl (hl.2.2.refs_mem hmem hp)).symm

/-- **The value of a built node** is its expression with every placeholder replaced by what a use of
that node becomes. -/
theorem value_eq (hl : LatestFirst r.latestFirst) (h : (n, e) ∈ r.latestFirst) :
    r.value n = e.mapRefs fun p ↦ r.use p.node :=
  valueAmong_of_mem hl h

theorem value_of_not_mem (h : id ∉ r.latestFirst.map Prod.fst) : r.value id = .null :=
  valueAmong_of_not_mem h

theorem use_of_varName? {varName : String} (h : r.sharing.varName? id = some varName) :
    r.use id = .reference ⟨id, varName⟩ := by
  rw [use, useBy, h]

theorem use_of_varName?_eq_none (h : r.sharing.varName? id = none) : r.use id = r.value id := by
  rw [use, useBy, h]

/-! ## References that are left -/

/-- A reference that is left in a value is one to a shared node, and the node is met on a way of
placeholders. -/
theorem refs_value (hl : LatestFirst r.latestFirst) {ref : SharedRef}
    (h : ref ∈ (r.value id).refs) : r.sharing.varName? ref.node = some ref.varName ∧
      Relation.TransGen (Uses r.latestFirst) id ref.node := by
  by_cases hid : id ∈ r.latestFirst.map Prod.fst
  · revert h
    refine hl.ind hid fun n e hmem ih h ↦ ?_
    rw [value_eq hl hmem, Expr.mem_refs_mapRefs] at h
    obtain ⟨p, hp, h⟩ := h
    have huses : Uses r.latestFirst n p.node := ⟨e, hmem, p, hp, rfl⟩
    cases hv : r.sharing.varName? p.node with
    | some varName =>
      rw [use_of_varName? hv, Expr.refs, List.mem_singleton] at h
      subst h
      exact ⟨hv, .single huses⟩
    | none =>
      rw [use_of_varName?_eq_none hv] at h
      exact ⟨(ih p hp h).1, .head huses (ih p hp h).2⟩
  · rw [value, valueAmong_of_not_mem hid] at h
    exact absurd h List.not_mem_nil

/-- A reference that is left in a use. -/
theorem refs_use (hl : LatestFirst r.latestFirst) {ref : SharedRef} (h : ref ∈ (r.use id).refs) :
    r.sharing.varName? ref.node = some ref.varName ∧
      Relation.ReflTransGen (Uses r.latestFirst) id ref.node := by
  cases hv : r.sharing.varName? id with
  | some varName =>
    rw [use_of_varName? hv, Expr.refs, List.mem_singleton] at h
    subst h
    exact ⟨hv, .refl⟩
  | none =>
    rw [use_of_varName?_eq_none hv] at h
    exact ⟨(refs_value hl h).1, (refs_value hl h).2.to_reflTransGen⟩

/-! ## Without sharing -/

/-- The resolver that shares nothing. -/
def unshared (r : Resolver) : Resolver := { r with sharing := ⟨[]⟩ }

theorem use_unshared (r : Resolver) (id : String) : r.unshared.use id = r.unshared.value id := rfl

/-- With its references replaced by the unshared values of their nodes, a value is the unshared
value. -/
theorem mapRefs_value (hl : LatestFirst r.latestFirst) (id : String) :
    (r.value id).mapRefs (fun ref ↦ r.unshared.value ref.node) = r.unshared.value id := by
  by_cases hid : id ∈ r.latestFirst.map Prod.fst
  · refine hl.ind hid fun n e hmem ih ↦ ?_
    rw [value_eq hl hmem, value_eq (r := r.unshared) hl hmem, Expr.mapRefs_mapRefs]
    refine Expr.mapRefs_congr fun p hp ↦ ?_
    cases hv : r.sharing.varName? p.node with
    | some varName => rw [use_of_varName? hv, Expr.mapRefs, use_unshared]
    | none => rw [use_of_varName?_eq_none hv, ih p hp, use_unshared]
  · rw [value, value, valueAmong_of_not_mem hid]
    exact (valueAmong_of_not_mem hid).symm

theorem mapRefs_use (hl : LatestFirst r.latestFirst) (id : String) :
    (r.use id).mapRefs (fun ref ↦ r.unshared.value ref.node) = r.unshared.value id := by
  cases hv : r.sharing.varName? id with
  | some varName => rw [use_of_varName? hv, Expr.mapRefs]
  | none => rw [use_of_varName?_eq_none hv, mapRefs_value hl]

/-! ## The memo -/

/-- What holds of the state when the unbuilt nodes `missing` were met: the memo holds values, these
nodes were reported in this order, and of the unbuilt nodes it is these that the memo holds. -/
structure Knows (r : Resolver) (missing : List String) (s : ResolverState) : Prop where
  sound : ∀ id e, s.find? id = some e → e = r.value id
  reports : s.reports = missing.map .unbuildableReference
  remembered : ∀ id, id ∉ r.latestFirst.map Prod.fst → ((s.find? id).isSome ↔ id ∈ missing)

/-- The unbuilt nodes met after a node was inlined. -/
def noteInline (r : Resolver) (missing : List String) (id : String) : List String :=
  if id ∈ r.latestFirst.map Prod.fst ∨ id ∈ missing then missing else missing ++ [id]

/-- The unbuilt nodes met after a use of a node. -/
def noteUse (r : Resolver) (missing : List String) (id : String) : List String :=
  if r.sharing.contains id then missing else r.noteInline missing id

theorem noteInline_of_mem (h : id ∈ r.latestFirst.map Prod.fst) :
    r.noteInline missing id = missing :=
  if_pos (.inl h)

theorem knows_start (r : Resolver) : r.Knows [] {} :=
  ⟨fun _ _ h ↦ absurd h (by simp [ResolverState.find?]), rfl, fun _ _ ↦ by
    simp [ResolverState.find?]⟩

theorem find?_remember (s : ResolverState) (v : Expression) :
    (s.remember n v).find? id = if n = id then some v else s.find? id := by
  by_cases h : n = id <;> simp [ResolverState.remember, ResolverState.find?, h]

/-- Remembering the value of a built node keeps what is known. -/
theorem Knows.remember {s : ResolverState} (h : r.Knows missing s)
    (hid : id ∈ r.latestFirst.map Prod.fst) : r.Knows missing (s.remember id (r.value id)) := by
  refine ⟨fun i e he ↦ ?_, h.reports, fun i hi ↦ ?_⟩
  · rw [find?_remember] at he
    split at he
    · next heq => rw [← Option.some.inj he, heq]
    · exact h.sound i e he
  · have hne : id ≠ i := fun heq ↦ hi (heq ▸ hid)
    rw [find?_remember, if_neg hne]
    exact h.remembered i hi

/-- An unbuilt node that is met first is reported and remembered as null. -/
theorem Knows.report {s : ResolverState} (h : r.Knows missing s)
    (hid : id ∉ r.latestFirst.map Prod.fst) :
    r.Knows (missing ++ [id]) ((s.report (.unbuildableReference id)).remember id .null) := by
  refine ⟨fun i e he ↦ ?_, ?_, fun i hi ↦ ?_⟩
  · rw [find?_remember] at he
    split at he
    · next heq => rw [← Option.some.inj he, value, ← heq, valueAmong_of_not_mem hid]
    · exact h.sound i e he
  · rw [List.map_append, ← h.reports]
    rfl
  · rw [find?_remember, List.mem_append, List.mem_singleton]
    split
    · next heq => exact iff_of_true rfl (.inr heq.symm)
    · next hne => exact (h.remembered i hi).trans (or_iff_left (Ne.symm hne)).symm

theorem run_remembering (s : ResolverState) (x : StateM ResolverState Expression) :
    (remembering id x).run s =
      match s.find? id with
      | some e => (e, s)
      | none => ((x.run s).1, (x.run s).2.remember id (x.run s).1) := by
  rw [remembering, StateT.run_bind, StateT.run_get]
  change StateT.run (match s.find? id with | some e => _ | none => _) s = _
  cases s.find? id <;> rfl

/-- A built node may be looked up or computed, the answer is the same. -/
theorem remembering_runs {x : StateM ResolverState Expression}
    (hid : id ∈ r.latestFirst.map Prod.fst)
    (hx : Runs (r.Knows missing) x (r.value id) (r.Knows missing)) :
    Runs (r.Knows missing) (remembering id x) (r.value id) (r.Knows missing) := by
  intro s hs
  rw [run_remembering]
  cases hf : s.find? id with
  | some e => exact ⟨s, by rw [hs.sound id e hf], hs⟩
  | none =>
    obtain ⟨s', hrun, hs'⟩ := hx s hs
    exact ⟨s'.remember id (r.value id), by rw [hrun], hs'.remember hid⟩

/-- A use of a node is a reference or what inlining answers. -/
theorem resolveBy_runs {inline : String → StateM ResolverState Expression} {met : List String}
    (hshared : r.sharing.contains id → met = missing)
    (hinline : ¬ r.sharing.contains id →
      Runs (r.Knows missing) (inline id) (r.value id) (r.Knows met)) :
    Runs (r.Knows missing) (resolveBy r.sharing inline id) (r.use id) (r.Knows met) := by
  rw [resolveBy, use, useBy, Sharing.varName?]
  rw [Sharing.contains] at hshared hinline
  cases hf : r.sharing.find? id with
  | some node =>
    rw [hshared (by rw [hf]; rfl)]
    exact Runs.pure _ _
  | none => exact hinline (by rw [hf]; exact Bool.false_ne_true)

/-- The nodes before a built one give it its value, whatever is remembered. -/
theorem inlineAmong_runs (hl : LatestFirst r.latestFirst) (hsuffix : earlier <:+ r.latestFirst)
    (hid : id ∈ earlier.map Prod.fst) :
    Runs (r.Knows missing) (inlineAmong r.sharing earlier id) (r.value id) (r.Knows missing) := by
  induction earlier generalizing id with
  | nil => exact absurd hid List.not_mem_nil
  | cons m earlier ih =>
    obtain ⟨n, e⟩ := m
    have hearlier : earlier <:+ r.latestFirst := (List.suffix_cons _ _).trans hsuffix
    rw [inlineAmong]
    split
    · next heq =>
      subst heq
      rw [value_eq hl (hsuffix.subset List.mem_cons_self)]
      refine e.mapRefsM_keeps fun p hp ↦ ?_
      have hbefore : p.node ∈ earlier.map Prod.fst := hl.refs_before hsuffix hp
      have hbuilt : p.node ∈ r.latestFirst.map Prod.fst := (hearlier.map _).subset hbefore
      exact resolveBy_runs (fun _ ↦ rfl) fun _ ↦ remembering_runs hbuilt (ih hearlier hbefore)
    · next hne =>
      rw [List.map_cons, List.mem_cons] at hid
      exact ih hearlier (hid.resolve_left (Ne.symm hne))

theorem inlineAmong_of_not_mem (h : id ∉ l.map Prod.fst) :
    inlineAmong sharing l id = (do modify (·.report (.unbuildableReference id)); return .null) := by
  induction l with
  | nil => rfl
  | cons m l ih =>
    rw [List.map_cons, List.mem_cons, not_or] at h
    rw [inlineAmong, if_neg (Ne.symm h.1), ih h.2]

/-! ## The resolver -/

/-- **Inlining a node answers its value**, and reports it if it was not built and is met first. -/
theorem inline_runs (hl : LatestFirst r.latestFirst) (id : String) (missing : List String) :
    Runs (r.Knows missing) (r.inline id) (r.value id) (r.Knows (r.noteInline missing id)) := by
  rw [inline]
  by_cases hid : id ∈ r.latestFirst.map Prod.fst
  · rw [noteInline_of_mem hid]
    exact remembering_runs hid (inlineAmong_runs hl List.suffix_rfl hid)
  · intro s hs
    rw [run_remembering, inlineAmong_of_not_mem hid, noteInline]
    cases hf : s.find? id with
    | some e =>
      have hmet : id ∈ missing := (hs.remembered id hid).mp (by rw [hf]; rfl)
      rw [if_pos (.inr hmet)]
      exact ⟨s, by rw [hs.sound id e hf], hs⟩
    | none =>
      have hnew : id ∉ missing := fun h ↦ by
        have := (hs.remembered id hid).mpr h
        rw [hf] at this
        cases this
      rw [if_neg (not_or.mpr ⟨hid, hnew⟩), value, valueAmong_of_not_mem hid]
      exact ⟨_, rfl, hs.report hid⟩

/-- **A use of a node** is its shared reference, or else its value. -/
theorem resolve_runs (hl : LatestFirst r.latestFirst) (id : String) (missing : List String) :
    Runs (r.Knows missing) (r.resolve id) (r.use id) (r.Knows (r.noteUse missing id)) := by
  refine resolveBy_runs (fun h ↦ if_pos h) fun h ↦ ?_
  rw [noteUse, if_neg h]
  exact inline_runs hl id missing

/-- **An expression is expanded** by putting its use in the place of every placeholder. -/
theorem expand_runs (hl : LatestFirst r.latestFirst) (e : BuiltExpr) (missing : List String) :
    Runs (r.Knows missing) (r.expand e) (e.mapRefs fun p ↦ r.use p.node)
      (r.Knows (e.refs.foldl (fun met p ↦ r.noteUse met p.node) missing)) :=
  e.mapRefsM_runs (fun p _ met ↦ resolve_runs hl p.node met) missing

end MappingGraph.Resolver
