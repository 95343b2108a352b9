import TypedTree.Proofs.Pass.Branch
import TypedTree.Proofs.Pass.Class
import TypedTree.Proofs.Pass.Jump
import TypedTree.Proofs.Pass.Loop
import TypedTree.Proofs.Pass.Template

namespace TypedTree.Tandem

open Lower

variable {Stage : Type} [Preorder Stage] {T : Tandem Stage}

structure treeFiles (T : Tandem Stage) (w : Stage) (a b : TreeFile) : Prop where
  name : a.name = b.name
  package : a.package = b.package
  annotations : List.Forall₂ (T.notes w) a.annotations b.annotations
  declarations : List.Forall₂ (T.decls [] w) a.declarations b.declarations

namespace Lawful

variable {w : Stage} {g : Region} (hT : T.Lawful) {d : Descent} (hd : T.Descends d)
  {s1 s2 : Scope}

include hT

section

include hd

theorem declarationStep (hs : T.scopes g w s1 s2) {id : NodeId} (hid : T.Finds id) :
    T.SameIn w s1 s2 (declarationStep d · id) (T.decls g) := by
  refine hT.node_bind hid fun n _ hn => ?_
  split
  next => exact hT.lowerClass hd hid
  next hkind =>
    simp only [hkind, NodeKind.refs, World.knows_refs] at hn
    exact hT.lowerEnumEntry hd hid hn.1 hn.2
  next => exact hT.lowerFunction hd hs hid
  next hkind =>
    rw [hkind] at hn
    exact hT.lowerProperty hd hs hid hn
  next hkind =>
    simp only [hkind, NodeKind.refs, World.knows_refs] at hn
    exact hT.lowerTypeAlias hid hn.1 hn.2
  next => exact (hT.lowerConstructor hd hs hid (by simp)).imp fun _ _ _ _ hx => hx.1
  next hkind =>
    simp only [hkind, NodeKind.refs, World.knows_refs] at hn
    exact hT.lowerInitializer hd hs hn.1 hn.2
  next => exact hT.unexpected hid

theorem lowerCatch (hs : T.scopes g w s1 s2) {clause : CatchClause}
    (hc : T.world.Knows clause.refs) :
    T.SameIn w s1 s2 (lowerCatch d · clause) fun w' => Catch.Alike (T.ids w') g := by
  refine Does.bind (hT.lowerValueParameter hd hs (hc _ (by simp [CatchClause.refs])))
    fun w1 _ _ h1 hx => ?_
  have hbody : ∀ m ∈ some clause.body, T.Finds m := by
    simpa using hc _ (by simp [CatchClause.refs])
  exact Does.bind (hT.lowerBody hd (scopes_later h1 hs) hbody) fun w2 _ _ h2 he =>
    Does.pure ⟨decls_stable h2 hx.1, .inl he⟩

theorem lowerTry (hs : T.scopes g w s1 s2) {id body : NodeId} {catches : List CatchClause}
    {finalizer : Option NodeId}
    (hn : T.world.Knows (NodeKind.tryCatch body catches finalizer).refs) :
    T.SameIn w s1 s2 (lowerTry d · id body catches finalizer) (T.exprs g) := by
  have hbody : ∀ m ∈ some body, T.Finds m := by
    simpa using hn _ (by simp [NodeKind.refs])
  have hcatches : ∀ c ∈ catches, T.world.Knows c.refs := fun c hc r hr =>
    hn r (by simpa [NodeKind.refs] using .inr (.inl ⟨c, hc, hr⟩))
  have hfinalizer : ∀ m ∈ finalizer, ∀ k ∈ some m, T.Finds k := by
    rintro m hm k hk
    cases hk
    exact hn _ (by simp [NodeKind.refs, Reference.node?, Reference.nodes, Option.mem_def.1 hm])
  have hstable : Stable fun w => Catch.Alike (T.ids w) g :=
    fun _ _ _ _ h hab => hab.mono (T.ids_mono h) (List.Subset.refl g)
  refine Does.bind (hT.lowerBody hd hs hbody) fun w1 _ _ h1 heb => ?_
  refine Does.bind (Does.mapM_same hstable fun c hc _ hle =>
    hT.lowerCatch hd (scopes_later (h1.trans hle) hs) (hcatches c hc)) fun w2 _ _ h2 hcs => ?_
  refine Does.bind (Does.optionMapM fun m hm =>
    hT.lowerBody hd (scopes_later (h1.trans h2) hs) (hfinalizer m hm)) fun w3 _ _ h3 hef => ?_
  refine Does.bind hT.expressionType fun w4 _ _ h4 hτ => ?_
  exact hT.addExpr hτ (.tryCatch (part_later ((h2.trans h3).trans h4) (.inl heb))
    (lists_stable hstable (h3.trans h4) hcs) (given_of_expr h4 hef)) rfl

theorem lowerLabeled (hs : T.scopes g w s1 s2) {label : Name} {body : NodeId} (hb : T.Finds body) :
    T.SameIn w s1 s2 (lowerLabeled d · label body) (T.exprs g) := by
  refine deparenthesize_bind hb fun hinner => hT.node_bind hinner fun n _ hn => ?_
  split
  next hkind =>
    simp only [hkind, NodeKind.refs, Reference.nodes, List.forall_mem_cons,
      List.forall_mem_map] at hn
    exact hT.lowerLambda hd hs hinner hn.2 hn.1
  next => exact hT.lowerAnonymousFunction hd hs hinner
  next hkind =>
    simp only [hkind, NodeKind.refs, World.knows_refs] at hn
    exact hT.lowerWhile hd hs hn.1 hn.2
  next hkind =>
    simp only [hkind, NodeKind.refs, World.knows_refs] at hn
    exact hT.lowerDoWhile hd hs hn.1 hn.2
  next hkind =>
    simp only [hkind, NodeKind.refs, Reference.node?, Reference.nodes, List.forall_mem_append,
      List.forall_mem_cons, List.forall_mem_map, Option.mem_toList] at hn
    exact hT.lowerFor hd hs hinner hn.1.1 hn.1.2.1 hn.2
  next => exact hd.expr hs hb

theorem declarationBlock (hs : T.scopes g w s1 s2) {id : NodeId} (hid : T.Finds id) :
    T.SameIn w s1 s2 (Lower.declarationStep d · id >>= fun x => Lower.block [.declaration x])
      (T.exprs g) :=
  Does.bind (hT.declarationStep hd hs hid) fun _ _ _ _ hx => hT.block (.cons (.declaration hx) .nil)

theorem expressionStep (hs : T.scopes g w s1 s2) {id : NodeId} (hid : T.Finds id) :
    T.SameIn w s1 s2 (expressionStep d · id) (T.exprs g) := by
  refine hT.node_bind hid fun n _ hn => ?_
  generalize n.kind = kind at hn ⊢
  cases kind with
  | classDecl _ => exact hT.declarationBlock hd hs hid
  | property _ => exact hT.declarationBlock hd hs hid
  | typeAlias _ _ _ => exact hT.declarationBlock hd hs hid
  | function f =>
    obtain ⟨name, _, _, _, _⟩ := f
    cases name with
    | some _ => exact hT.declarationBlock hd hs hid
    | none => exact hT.lowerAnonymousFunction hd hs hid
  | destructuring entries value =>
    simp only [NodeKind.refs, World.knows_refs] at hn
    exact hT.lowerDestructuring hd hs hn.1 hn.2
  | constant => exact hT.lowerConstant hid
  | template entries =>
    exact hT.lowerTemplate hd hs fun e he r hr => hn r (List.mem_flatMap.2 ⟨e, he, hr⟩)
  | nameReference _ => exact hT.lowerSelector hd hs hid callParts_none
  | call _ _ => exact hT.lowerSelector hd hs hid callParts_none
  | qualified receiver selector _ =>
    exact hT.lowerQualified hd hs (hn _ (by simp [NodeKind.refs])) (hn _ (by simp [NodeKind.refs]))
  | arrayAccess _ _ => exact hT.lowerArrayAccess hd hs hid
  | unary _ operand _ => exact hT.lowerUnary hd hs hid (hn _ (by simp [NodeKind.refs]))
  | binary _ left right =>
    simp only [NodeKind.refs, Reference.node?, Reference.nodes, List.forall_mem_cons,
      List.forall_mem_map, Option.mem_toList] at hn
    exact hT.lowerBinary hd hs hid hn.1 hn.2
  | typeCheck expression typeRef _ =>
    exact hT.lowerTypeCheck hd hs (hn _ (by simp [NodeKind.refs])) (hn _ (by simp [NodeKind.refs]))
  | cast expression typeRef _ =>
    exact hT.lowerCast hd hs (hn _ (by simp [NodeKind.refs])) (hn _ (by simp [NodeKind.refs]))
  | ifElse _ _ _ => exact hT.lowerIf hd hs hid
  | whenCases subject entries =>
    refine hT.lowerWhen hd hs (fun x hx r hr => ?_) fun e he r hr => ?_
    · exact hn r (by simp [NodeKind.refs, Option.mem_def.1 hx, hr])
    · exact hn r (List.mem_append_right _ (List.mem_flatMap.2 ⟨e, he, hr⟩))
  | whileLoop condition body =>
    simp only [NodeKind.refs, World.knows_refs] at hn
    exact hT.lowerWhile hd hs hn.1 hn.2
  | doWhile body condition =>
    simp only [NodeKind.refs, World.knows_refs] at hn
    exact hT.lowerDoWhile hd hs hn.1 hn.2
  | forLoop parameter range body =>
    simp only [NodeKind.refs, Reference.node?, Reference.nodes, List.forall_mem_append,
      List.forall_mem_cons, List.forall_mem_map, Option.mem_toList] at hn
    exact hT.lowerFor hd hs hid hn.1.1 hn.1.2.1 hn.2
  | breakJump _ => exact hT.lowerBreak hs hid
  | continueJump _ => exact hT.lowerContinue hs hid
  | returnJump _ value =>
    simp only [NodeKind.refs, Reference.node?, Reference.nodes, List.forall_mem_map,
      Option.mem_toList] at hn
    exact hT.lowerReturn hd hs hid hn
  | labeled _ body => exact hT.lowerLabeled hd hs (hn _ (by simp [NodeKind.refs]))
  | throwing exception =>
    simp only [NodeKind.refs, Reference.node?, Reference.nodes, List.forall_mem_map,
      Option.mem_toList] at hn
    exact hT.lowerThrow hd hs hn
  | tryCatch body catches finalizer => exact hT.lowerTry hd hs hn
  | lambda parameters body =>
    simp only [NodeKind.refs, Reference.nodes, List.forall_mem_cons, List.forall_mem_map] at hn
    exact hT.lowerLambda hd hs hid hn.2 hn.1
  | objectLiteral declaration => exact hT.lowerObjectLiteral hd (hn _ (by simp [NodeKind.refs]))
  | block statements => exact hT.lowerBlock hd hs fun m hm => hn _ (List.mem_map_of_mem hm)
  | parenthesized inner => exact hd.expr hs (hn _ (by simp [NodeKind.refs]))
  | thisRef _ =>
    exact Does.bind hT.expressionType fun _ _ _ _ hτ => hT.addExpr hτ .thisRef rfl
  | superRef _ => exact hT.malformed
  | classLiteral _ => exact hT.lowerClassLiteral
  | callableReference _ _ => exact hT.lowerCallableReference hd hs hid
  | annotated annotations base =>
    simp only [NodeKind.refs, Reference.nodes, List.forall_mem_cons, List.forall_mem_map] at hn
    exact hT.lowerAnnotated hd hs hn.2 hn.1
  | malformed _ => exact hT.malformed
  | enumEntry _ _ _ | primaryConstructor _ _ | secondaryConstructor _ _ _ _ | delegationCall _ _
  | accessor _ _ _ _ | initializer _ _ | typeParameter _ _ | parameter _ | destructuringEntry _
  | annotationEntry | typeReference => exact hT.unexpected hid

end

/-- Nodes are lowered alike, however deep they are nested. -/
theorem descends (fuel : Nat) : T.Descends (descent fuel) := by
  induction fuel with
  | zero =>
    exact ⟨fun _ _ => hT.throw (by simp) (by simp), fun _ _ => hT.throw (by simp) (by simp)⟩
  | succ fuel ih =>
    exact ⟨fun hs hid => hT.expressionStep ih hs hid, fun hs hid => hT.declarationStep ih hs hid⟩

theorem lowerDeclaration (hs : T.scopes g w s1 s2) {id : NodeId} (hid : T.Finds id) :
    T.SameIn w s1 s2 (lowerDeclaration · id) (T.decls g) :=
  Does.read_bind ((hT.descends _).decl hs hid)

theorem lowerFile (hf : T.world.Knows file.refs) : T.Same w (lowerFile file) T.treeFiles := by
  simp only [SourceFile.refs, World.knows_refs] at hf
  refine Does.bind (hT.annotationEntries hf.1) fun w1 _ _ h1 hcalls => ?_
  refine Does.bind (Does.mapM_same (decls_stable (T := T) (g := [])) fun id hid _ _ =>
    hT.lowerDeclaration scopes_root (hf.2 id hid)) fun w2 _ _ h2 hds => ?_
  exact Does.pure ⟨rfl, rfl, notes_later h2 hcalls, hds⟩

end Lawful

end TypedTree.Tandem
