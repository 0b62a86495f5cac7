import MappingGraph.Proofs.Unbuilt

/-!
# The memo cannot be seen

A resolver can be asked for many things in a row, and it remembers between one request and the next.
`Resolver.Gives` says what the answer to a request is without a memo: a shared node is a reference,
an unbuilt one is null, and any other is its expression with every placeholder resolved in the same
way.  It is a relation with finite derivations, so that an answer there is one that the plain
recursion comes to.  It lists the unbuilt nodes it meets, as often as it meets them.

The recursion of the resolver itself is along the build order, which is how it is seen to end.
`Resolver.inline_eq` gives it the form of the plain recursion, with the memo in between.

The main result, `Graph.build_hidesMemo`, is about every row of requests: the answers are
those without a memo, whatever was asked before, and the reports name every unbuilt node that is met
once, where it is met first.
-/

set_option autoImplicit false

namespace MappingGraph

namespace Resolver

/-- What a resolver can be asked for. -/
inductive Request where
  /-- What a use of the node becomes. -/
  | resolve (id : String)
  /-- The node's own expression. -/
  | inline (id : String)
  /-- An expression with all placeholders resolved. -/
  | expand (e : BuiltExpr)

def perform (r : Resolver) : Request → StateM ResolverState Expression
  | .resolve id => r.resolve id
  | .inline id => r.inline id
  | .expand e => r.expand e

/-- **Resolving without a memo**: the answer to a request, and the unbuilt nodes that are met on the
way, each as often as it is met. -/
inductive Gives (out : BuildOutput) (sharing : Sharing) :
    Request → Expression → List String → Prop
  | shared {id varName : String} (h : sharing.varName? id = some varName) :
    Gives out sharing (.resolve id) (.reference ⟨id, varName⟩) []
  | plain {id : String} {x : Expression} {met : List String} (h : sharing.varName? id = none)
    (hx : Gives out sharing (.inline id) x met) : Gives out sharing (.resolve id) x met
  | unbuilt {id : String} (h : out.expr? id = none) : Gives out sharing (.inline id) .null [id]
  | built {id : String} {e : BuiltExpr} {x : Expression} {met : List String}
    (h : out.expr? id = some e) (hx : Gives out sharing (.expand e) x met) :
    Gives out sharing (.inline id) x met
  | expand {e : BuiltExpr} {x : Placeholder → Expression} {met : Placeholder → List String}
    (h : ∀ p ∈ e.refs, Gives out sharing (.resolve p.node) (x p) (met p)) :
    Gives out sharing (.expand e) (e.mapRefs x) (e.refs.flatMap met)

variable {r : Resolver} {sharing : Sharing} {l : List (String × BuiltExpr)} {id n : String}
  {e : BuiltExpr}

/-! ## The recursion of the resolver -/

/-- A later node changes nothing about inlining the earlier ones. -/
theorem inlineAmong_cons {earlier : List (String × BuiltExpr)}
    (hl : LatestFirst ((n, e) :: earlier)) (h : id ∈ earlier.map Prod.fst) :
    inlineAmong sharing ((n, e) :: earlier) id = inlineAmong sharing earlier id := by
  rw [inlineAmong, if_neg]
  rintro rfl
  exact hl.1 h

/-- A built node is inlined by resolving its expression, the build order out of sight. -/
theorem inlineAmong_of_mem (hl : LatestFirst l) (h : (n, e) ∈ l) :
    inlineAmong sharing l n = e.mapRefsM fun p ↦
      resolveBy sharing (fun i ↦ remembering i (inlineAmong sharing l i)) p.node := by
  induction l with
  | nil => exact absurd h List.not_mem_nil
  | cons m earlier ih =>
    obtain ⟨n', e'⟩ := m
    have hcongr : ∀ p : Placeholder, p.node ∈ earlier.map Prod.fst →
        resolveBy sharing (fun i ↦ remembering i (inlineAmong sharing earlier i)) p.node =
          resolveBy sharing (fun i ↦ remembering i (inlineAmong sharing ((n', e') :: earlier) i))
            p.node := by
      intro p hp
      rw [resolveBy, resolveBy, inlineAmong_cons hl hp]
    rcases List.mem_cons.mp h with heq | hmem
    · obtain ⟨rfl, rfl⟩ := Prod.mk.inj heq
      rw [inlineAmong, if_pos rfl]
      exact Expr.mapRefsM_congr fun p hp ↦ hcongr p (hl.2.1 p hp)
    · rw [inlineAmong_cons hl (List.mem_map_of_mem hmem), ih hl.2.2 hmem]
      exact Expr.mapRefsM_congr fun p hp ↦ hcongr p (hl.2.2.refs_mem hmem hp)

/-- The expression of a node among the built ones. -/
theorem expr?_eq_some_iff {out : BuildOutput} (hl : LatestFirst out.built.reverse) :
    out.expr? id = some e ↔ (id, e) ∈ out.built.reverse := by
  rw [List.mem_reverse]
  refine ⟨Graph.mem_built_of_expr?, fun h ↦ ?_⟩
  have hsome : (out.expr? id).isSome := Graph.isSome_expr?_iff.mpr (List.mem_map_of_mem h)
  obtain ⟨e', he'⟩ := Option.isSome_iff_exists.mp hsome
  have hnodup := List.map_reverse ▸ hl.nodup
  have heq := List.inj_on_of_nodup_map (List.nodup_reverse.mp hnodup) h
    (Graph.mem_built_of_expr? he') rfl
  rw [he', (Prod.mk.inj heq).2]

theorem expr?_eq_none_iff {out : BuildOutput} :
    out.expr? id = none ↔ id ∉ out.built.reverse.map Prod.fst := by
  rw [← Option.not_isSome_iff_eq_none, Graph.isSome_expr?_iff, List.map_reverse, List.mem_reverse]
  rfl

/-- **Inlining a node looks it up**, or else resolves its expression, or reports that it has
none. -/
theorem inline_eq {out : BuildOutput} (hl : LatestFirst out.built.reverse) (id : String) :
    (of out sharing).inline id = remembering id (
      match out.expr? id with
      | some e => (of out sharing).expand e
      | none => do modify (·.report (.unbuildableReference id)); return .null) := by
  rw [inline]
  cases h : out.expr? id with
  | some e => exact congrArg (remembering id) (inlineAmong_of_mem hl ((expr?_eq_some_iff hl).mp h))
  | none => exact congrArg (remembering id) (inlineAmong_of_not_mem (expr?_eq_none_iff.mp h))

/-! ## Answers -/

/-- The answer to a request. -/
def answer (r : Resolver) : Request → Expression
  | .resolve id => r.use id
  | .inline id => r.value id
  | .expand e => e.mapRefs fun p ↦ r.use p.node

/-- The unbuilt nodes that are met when a node is inlined: a built one leads to built ones only. -/
def metByInline (r : Resolver) (id : String) : List String :=
  if id ∈ r.latestFirst.map Prod.fst then [] else [id]

/-- The unbuilt nodes that are met when a use of a node is resolved. -/
def metByUse (r : Resolver) (id : String) : List String :=
  if r.sharing.contains id then [] else r.metByInline id

/-- The unbuilt nodes that are met when a request is answered. -/
def met (r : Resolver) : Request → List String
  | .resolve id => r.metByUse id
  | .inline id => r.metByInline id
  | .expand e => e.refs.flatMap fun p ↦ r.metByUse p.node

theorem metByInline_of_mem (h : id ∈ r.latestFirst.map Prod.fst) : r.metByInline id = [] :=
  if_pos h

/-- An expression that refers to built nodes meets no other. -/
theorem met_expand_of_mem (h : ∀ p ∈ e.refs, p.node ∈ r.latestFirst.map Prod.fst) :
    r.met (.expand e) = [] := by
  rw [met, List.flatMap_eq_nil_iff]
  intro p hp
  rw [metByUse, metByInline_of_mem (h p hp), ite_self]

/-- A node is shared exactly if it has a name. -/
theorem contains_eq_isSome (sharing : Sharing) (id : String) :
    sharing.contains id = (sharing.varName? id).isSome := by
  rw [Sharing.contains, Sharing.varName?, Option.isSome_map]

section

variable {out : BuildOutput} {request : Request} {x : Expression} {met : List String}

/-- What is given without a memo is the answer. -/
theorem Gives.eq_answer (hl : LatestFirst out.built.reverse)
    (h : Gives out sharing request x met) :
    x = (of out sharing).answer request ∧ met = (of out sharing).met request := by
  induction h with
  | shared h =>
    refine ⟨(use_of_varName? h).symm, (if_pos ?_).symm⟩
    rw [of, contains_eq_isSome, h]
    rfl
  | plain h _ ih =>
    refine ⟨ih.1.trans (use_of_varName?_eq_none h).symm, ih.2.trans (if_neg ?_).symm⟩
    rw [of, contains_eq_isSome, h]
    exact Bool.false_ne_true
  | unbuilt h =>
    have hnot := expr?_eq_none_iff.mp h
    exact ⟨(value_of_not_mem (r := of out sharing) hnot).symm, (if_neg hnot).symm⟩
  | @built id e x met h _ ih =>
    have hmem : (id, e) ∈ (of out sharing).latestFirst := (expr?_eq_some_iff hl).mp h
    refine ⟨ih.1.trans (value_eq hl hmem).symm, ih.2.trans ?_⟩
    rw [met_expand_of_mem fun p hp ↦ hl.refs_mem hmem hp]
    exact (metByInline_of_mem (List.mem_map_of_mem hmem)).symm
  | expand _ ih =>
    exact ⟨Expr.mapRefs_congr fun p hp ↦ (ih p hp).1,
      List.flatMap_congr fun p hp ↦ (ih p hp).2⟩

theorem gives_use (h : Gives out sharing (.inline id) ((of out sharing).value id)
      ((of out sharing).metByInline id)) :
    Gives out sharing (.resolve id) ((of out sharing).use id) ((of out sharing).metByUse id) := by
  cases hv : sharing.varName? id with
  | some varName =>
    rw [use_of_varName? hv, metByUse, if_pos (by rw [of, contains_eq_isSome, hv]; rfl)]
    exact .shared hv
  | none =>
    rw [use_of_varName?_eq_none hv, metByUse,
      if_neg (by rw [of, contains_eq_isSome, hv]; exact Bool.false_ne_true)]
    exact .plain hv h

/-- The induction is along the build order: an expression is resolved once the nodes it refers to
are. -/
theorem gives_inline (hl : LatestFirst out.built.reverse) (id : String) :
    Gives out sharing (.inline id) ((of out sharing).value id)
      ((of out sharing).metByInline id) := by
  by_cases hid : id ∈ (of out sharing).latestFirst.map Prod.fst
  · refine hl.ind hid fun n e hmem ih ↦ ?_
    have hx : Gives out sharing (.expand e) _ _ := .expand fun p hp ↦ gives_use (ih p hp)
    have hn : n ∈ (of out sharing).latestFirst.map Prod.fst := List.mem_map_of_mem hmem
    have hmet : (of out sharing).met (.expand e) = (of out sharing).metByInline n := by
      rw [metByInline_of_mem hn]
      exact met_expand_of_mem fun p hp ↦ hl.refs_mem hmem hp
    rw [value_eq (r := of out sharing) hl hmem, ← hmet]
    exact .built ((expr?_eq_some_iff hl).mpr hmem) hx
  · rw [value_of_not_mem hid, metByInline, if_neg hid]
    exact .unbuilt (expr?_eq_none_iff.mpr hid)

/-- **The plain recursion ends, and it ends in the answer.** -/
theorem gives_iff (hl : LatestFirst out.built.reverse) :
    Gives out sharing request x met ↔
      x = (of out sharing).answer request ∧ met = (of out sharing).met request := by
  refine ⟨Gives.eq_answer hl, ?_⟩
  rintro ⟨rfl, rfl⟩
  cases request with
  | resolve id => exact gives_use (gives_inline hl id)
  | inline id => exact gives_inline hl id
  | expand e => exact .expand fun p _ ↦ gives_use (gives_inline hl p.node)

end

/-! ## Rows of requests -/

theorem noteInline_eq (l : List String) (id : String) :
    r.noteInline l.eraseDups id = (l ++ r.metByInline id).eraseDups := by
  rw [noteInline, metByInline]
  by_cases hid : id ∈ r.latestFirst.map Prod.fst
  · rw [if_pos (.inl hid), if_pos hid, List.append_nil]
  · rw [if_neg hid, eraseDups_concat]
    simp only [hid, false_or, List.mem_eraseDups]

theorem noteUse_eq (l : List String) (id : String) :
    r.noteUse l.eraseDups id = (l ++ r.metByUse id).eraseDups := by
  rw [noteUse, metByUse]
  split
  · rw [List.append_nil]
  · exact noteInline_eq l id

/-- **A request is answered whatever is remembered**, and what it meets is noted where it is met
first. -/
theorem perform_runs (hl : LatestFirst r.latestFirst) (request : Request) (l : List String) :
    Runs (r.Knows l.eraseDups) (r.perform request) (r.answer request)
      (r.Knows (l ++ r.met request).eraseDups) := by
  cases request with
  | resolve id =>
    rw [met, ← noteUse_eq]
    exact resolve_runs hl id l.eraseDups
  | inline id =>
    rw [met, ← noteInline_eq]
    exact inline_runs hl id l.eraseDups
  | expand e =>
    have hstep : ∀ p ∈ e.refs, ∀ l : List String, Runs (r.Knows l.eraseDups) (r.resolve p.node)
        (r.use p.node) (r.Knows (l ++ r.metByUse p.node).eraseDups) := by
      intro p _ l
      rw [← noteUse_eq]
      exact resolve_runs hl p.node l.eraseDups
    have hruns := @Expr.mapRefsM_runs _ _ _ _ (fun l ↦ r.Knows l.eraseDups)
      (fun l p ↦ l ++ r.metByUse p.node) _ _ e hstep l
    rw [List.foldl_append_eq_append, ← List.flatMap_def] at hruns
    exact hruns

/-- **A row of requests is answered one by one** as if each were the first. -/
theorem mapM_perform (hl : LatestFirst r.latestFirst) (requests : List Request) :
    ∃ s, (requests.mapM r.perform).run {} = (requests.map r.answer, s) ∧
      s.reports = (requests.flatMap r.met).eraseDups.map .unbuildableReference := by
  have hruns := @Runs.mapM _ _ _ _ (fun l ↦ r.Knows l.eraseDups)
    (fun l request ↦ l ++ r.met request) _ _ requests
    (fun request _ l ↦ perform_runs hl request l) []
  rw [List.foldl_append_eq_append, List.nil_append, ← List.flatMap_def] at hruns
  obtain ⟨s, hrun, hs⟩ := hruns {} (knows_start r)
  exact ⟨s, hrun, hs.reports⟩

/-! ## Nothing of the memo is seen -/

theorem mem_metByInline_iff {i : String} :
    i ∈ r.metByInline id ↔ i = id ∧ id ∉ r.latestFirst.map Prod.fst := by
  rw [metByInline]
  split
  · next hid => exact iff_of_false List.not_mem_nil fun h ↦ h.2 hid
  · next hid => rw [List.mem_singleton, and_iff_left hid]

theorem mem_metByUse_iff {i : String} :
    i ∈ r.metByUse id ↔ r.sharing.contains id = false ∧ i ∈ r.metByInline id := by
  rw [metByUse]
  split
  · next h => exact iff_of_false List.not_mem_nil fun hi ↦ Bool.false_ne_true (hi.1.symm.trans h)
  · next h => rw [and_iff_right (Bool.eq_false_of_not_eq_true h)]

/-- The unbuilt nodes that are met by a use are not shared. -/
theorem of_mem_met {request : Request} (h : id ∈ r.met request) :
    id ∉ r.latestFirst.map Prod.fst ∧
      (r.sharing.contains id = true → request = .inline id) := by
  have huse : ∀ i, id ∈ r.metByUse i → id ∉ r.latestFirst.map Prod.fst ∧
      r.sharing.contains id = false := by
    intro i hi
    obtain ⟨hshared, hi⟩ := mem_metByUse_iff.mp hi
    obtain ⟨rfl, hnot⟩ := mem_metByInline_iff.mp hi
    exact ⟨hnot, hshared⟩
  cases request with
  | resolve i => exact ⟨(huse i h).1, fun hs ↦ absurd hs (Bool.not_eq_true _ ▸ (huse i h).2)⟩
  | inline i =>
    obtain ⟨rfl, hnot⟩ := mem_metByInline_iff.mp h
    exact ⟨hnot, fun _ ↦ rfl⟩
  | expand e =>
    obtain ⟨p, _, hp⟩ := List.mem_flatMap.mp h
    exact ⟨(huse _ hp).1, fun hs ↦ absurd hs (Bool.not_eq_true _ ▸ (huse _ hp).2)⟩

/-- What can be seen of a resolver is what there is without a memo. -/
structure HidesMemo (out : BuildOutput) (sharing : Sharing) : Prop where
  /-- A node that is not remembered is inlined by resolving its expression; if it has none, that is
  reported. -/
  recursion : ∀ id, (of out sharing).inline id = remembering id (
    match out.expr? id with
    | some e => (of out sharing).expand e
    | none => do modify (·.report (.unbuildableReference id)); return .null)
  /-- Without a memo every request has an answer, and only one. -/
  ends : ∀ request, ∃! given : Expression × List String, Gives out sharing request given.1 given.2
  /-- What is met is unbuilt.  It is not shared either, unless the request was to inline just this
  node, which does not ask whether it is; a sharing of built nodes leaves no such case. -/
  unbuilt : ∀ request x met, Gives out sharing request x met → ∀ id ∈ met,
    id ∉ out.order ∧ (sharing.contains id = true → request = .inline id)
  /-- A row of requests has the answers that each of them has by itself, and what they meet is
  reported once, where it is met first. -/
  answers : ∀ requests given,
    List.Forall₂ (fun request (x : Expression × List String) ↦ Gives out sharing request x.1 x.2)
      requests given →
    ∃ s, (requests.mapM (of out sharing).perform).run {} = (given.map Prod.fst, s) ∧
      s.reports = (given.flatMap Prod.snd).eraseDups.map .unbuildableReference

theorem eq_map_of_forall₂ {out : BuildOutput} (hl : LatestFirst out.built.reverse)
    {requests : List Request} {given : List (Expression × List String)}
    (h : List.Forall₂ (fun request (x : Expression × List String) ↦
      Gives out sharing request x.1 x.2) requests given) :
    given = requests.map fun request ↦
      ((of out sharing).answer request, (of out sharing).met request) := by
  induction h with
  | nil => rfl
  | cons hx _ ih =>
    obtain ⟨hanswer, hmet⟩ := hx.eq_answer hl
    rw [List.map_cons, ← ih, ← hanswer, ← hmet]

end Resolver

/-- **The memo cannot be seen**: for every built graph, whatever is shared, and every row of
requests. -/
theorem Graph.build_hidesMemo (d : Document) (registry : Registry) (sharing : Sharing) :
    Resolver.HidesMemo ((ofDocument d).build registry) sharing := by
  have hl := build_latestFirst (nodup_ids_ofDocument d) registry
  constructor
  · exact Resolver.inline_eq hl
  · intro request
    refine ⟨(_, _), (Resolver.gives_iff hl).mpr ⟨rfl, rfl⟩, fun given h ↦ ?_⟩
    obtain ⟨hanswer, hmet⟩ := (Resolver.gives_iff hl).mp h
    exact Prod.ext hanswer hmet
  · intro request x met h id hid
    rw [(h.eq_answer hl).2] at hid
    obtain ⟨hnot, hshared⟩ := Resolver.of_mem_met hid
    refine ⟨fun horder ↦ hnot ?_, hshared⟩
    rw [Resolver.of, List.map_reverse, List.mem_reverse]
    exact horder
  · intro requests given h
    obtain ⟨s, hrun, hreports⟩ := Resolver.mapM_perform (r := .of _ sharing) hl requests
    refine ⟨s, ?_, ?_⟩
    · rw [hrun, Resolver.eq_map_of_forall₂ hl h, List.map_map]
      rfl
    · rw [hreports, Resolver.eq_map_of_forall₂ hl h, List.flatMap_map]

end MappingGraph
