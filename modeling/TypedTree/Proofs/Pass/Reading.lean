import TypedTree.Proofs.Lawful

namespace TypedTree.Tandem.Lawful

open Lower

variable {Stage : Type} [Preorder Stage] {T : Tandem Stage} (hT : T.Lawful) {w : Stage}
  {g : Region} {α β γ : Type} {Q : Stage → α → β → Prop}

include hT

theorem throw (hd : T.world.InRange → e ≠ .dangling) (hb : ∀ cause, e ≠ .alreadyBound cause) :
    T.Does w (throw e : Lower α) (throw e : Lower β) Q :=
  hT.throws hd hb

theorem present_bind (hx : T.world.InRange → x.isSome) {k1 : γ → Lower α} {k2 : γ → Lower β}
    (hk : ∀ c, x = some c → T.Does w (k1 c) (k2 c) Q) :
    T.Does w (present x >>= k1) (present x >>= k2) Q := by
  cases x with
  | none => exact hT.throw (fun hw => by simpa using hx hw) (by simp)
  | some c => simpa [present] using hk c rfl

theorem node_bind {id : NodeId} (hid : T.Finds id) {k1 : Node → Lower α} {k2 : Node → Lower β}
    (hk : ∀ n, T.world.tree.node? id = some n → T.world.Knows n.kind.refs →
      T.Does w (k1 n) (k2 n) Q) :
    T.Does w (node id >>= k1) (node id >>= k2) Q := by
  simp only [node, bind_assoc]
  refine Does.read_bind ?_
  exact hT.present_bind hid fun n hn => hk n hn (T.world.knows_node hn)

theorem descriptor_bind {id : DescId} (hid : T.world.Finds (.desc id)) {k1 : Descriptor → Lower α}
    {k2 : Descriptor → Lower β}
    (hk : ∀ d, T.world.descriptor? id = some d → T.world.Knows d.refs → T.Does w (k1 d) (k2 d) Q) :
    T.Does w (descriptor id >>= k1) (descriptor id >>= k2) Q := by
  simp only [descriptor, bind_assoc]
  refine Does.read_bind ?_
  exact hT.present_bind hid fun d hd => hk d hd (T.world.knows_descriptor hd)

omit hT in
theorem facts_bind {id : NodeId}
    (hk : T.world.Knows (T.world.factsOf id).refs →
      T.Does w (k1 (T.world.factsOf id)) (k2 (T.world.factsOf id)) Q) :
    T.Does w (facts id >>= k1) (facts id >>= k2) Q := by
  simp only [facts, bind_assoc, pure_bind]
  exact Does.read_bind (hk (T.world.knows_facts id))

omit hT in
theorem deparenthesize_bind {id : NodeId} (hid : T.Finds id) {k1 : NodeId → Lower α}
    {k2 : NodeId → Lower β}
    (hk : T.Finds (T.world.tree.deparenthesize id) →
      T.Does w (k1 (T.world.tree.deparenthesize id)) (k2 (T.world.tree.deparenthesize id)) Q) :
    T.Does w (deparenthesize id >>= k1) (deparenthesize id >>= k2) Q := by
  simp only [deparenthesize, bind_assoc, pure_bind]
  refine Does.read_bind ?_
  simp only [firstSetting, secondSetting, SourceTree.deparenthesize_withFiles]
  exact hk (T.world.finds_deparenthesize hid)

theorem content_bind (he : (T.ids w).part g e1 e2) {k1 : Expr → Lower α} {k2 : Expr → Lower β}
    (hk : ∀ x1 x2, Expr.Alike (T.ids w) g x1 x2 → T.Does w (k1 x1) (k2 x2) Q) :
    T.Does w (expr e1 >>= k1) (expr e2 >>= k2) Q := by
  obtain ⟨x1, x2, h1, h2, hx⟩ := hT.part he
  simp only [expr, bind_assoc]
  refine Does.get_bind ?_
  simpa [h1, h2, present] using hk x1 x2 hx

theorem decl_bind (hd : (T.ids w).decl g d1 d2) {k1 : Decl → Lower α} {k2 : Decl → Lower β}
    (hk : ∀ x1 x2 g', Decl.Alike (T.ids w) g' x1 x2 → T.Does w (k1 x1) (k2 x2) Q) :
    T.Does w (Lower.decl d1 >>= k1) (Lower.decl d2 >>= k2) Q := by
  obtain ⟨x1, x2, g', h1, h2, hx⟩ := hT.decl hd
  simp only [Lower.decl, bind_assoc]
  refine Does.get_bind ?_
  simpa [h1, h2, present] using hk x1 x2 g' hx

theorem unexpected {id : NodeId} (hid : T.Finds id) {what : String} :
    T.Does w (unexpected id what : Lower α) (Lower.unexpected id what : Lower β) Q :=
  hT.node_bind hid fun _ _ _ => hT.throw (by simp) (by simp)

theorem unexpectedDeclaration :
    T.Does w (unexpectedDeclaration d what : Lower α)
      (Lower.unexpectedDeclaration d what : Lower β) Q :=
  hT.throw (by simp) (by simp)

theorem required_bind {id : NodeId} (hid : T.Finds id) {k1 : γ → Lower α} {k2 : γ → Lower β}
    (hk : ∀ c, fact = some c → T.Does w (k1 c) (k2 c) Q) :
    T.Does w (required fact what id >>= k1) (required fact what id >>= k2) Q := by
  cases fact with
  | none =>
    simp only [required, bind_assoc]
    exact hT.node_bind hid fun n _ _ => hT.throw (by simp) (by simp)
  | some c => simpa [required] using hk c rfl

theorem required_none {id : NodeId} (hid : T.Finds id) :
    T.Does w (required none what id : Lower α) (required none what id : Lower β) Q :=
  hT.node_bind hid fun _ _ _ => hT.throw (by simp) (by simp)

theorem declared_bind {id : NodeId} (hid : T.Finds id) {k1 : DescId → Lower α}
    {k2 : DescId → Lower β}
    (hk : ∀ desc, (T.world.factsOf id).declares = some desc → T.world.Finds (.desc desc) →
      T.Does w (k1 desc) (k2 desc) Q) :
    T.Does w (declared id >>= k1) (declared id >>= k2) Q := by
  simp only [declared, bind_assoc]
  refine facts_bind fun hf => ?_
  refine hT.required_bind hid fun desc hdesc => hk desc hdesc (hf _ ?_)
  simp [NodeFacts.refs, hdesc, Reference.desc?, Reference.descs]

end TypedTree.Tandem.Lawful
