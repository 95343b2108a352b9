import Mathlib.Data.List.Perm.Subperm
import Mathlib.Logic.Relation
import TypedTree.Fragment.Walk

namespace TypedTree

namespace Store

/-- What a walk from a part comes to, the part itself included. -/
def Reaches (s : Store) : TreePart → TreePart → Prop :=
  Relation.ReflTransGen fun part child => child ∈ s.below part

def Acyclic (s : Store) : Prop :=
  ∀ part, ¬ Relation.TransGen (fun part child => child ∈ s.below part) part part

def Stands (s : Store) : TreePart → Prop
  | .decl id => (s.decl? id).isSome
  | .expr id => (s.expr? id).isSome
  | .type _ | .symbol _ | .functionTarget _ | .loopTarget _ | .whenRef _ => False

/-- Every chain of nodes from a part down has at most the given length. -/
def Within (s : Store) : Nat → TreePart → Prop
  | 0, part => ¬ s.Stands part
  | depth + 1, part => ∀ child ∈ s.below part, s.Within depth child

def nodeCount (s : Store) : Nat := s.decls.size + s.exprs.size

variable {s : Store} {part child : TreePart}

theorem stands_of_mem_below (h : child ∈ s.below part) : s.Stands part := by
  cases part with
  | decl id =>
    cases hx : s.decl? id with
    | none => simp [below, hx] at h
    | some x => simp [Stands, hx]
  | expr id =>
    cases hx : s.expr? id with
    | none => simp [below, hx] at h
    | some x => simp [Stands, hx]
  | _ => cases h

def nodes (s : Store) : List TreePart :=
  (List.range s.decls.size).map (.decl ⟨·⟩) ++ (List.range s.exprs.size).map (.expr ⟨·⟩)

theorem mem_nodes (h : s.Stands part) : part ∈ s.nodes := by
  cases part with
  | decl id =>
    have hi : id.index < s.decls.size := by simpa [Stands, decl?] using h
    exact List.mem_append_left _ (List.mem_map.2 ⟨id.index, List.mem_range.2 hi, rfl⟩)
  | expr id =>
    have hi : id.index < s.exprs.size := by simpa [Stands, expr?] using h
    exact List.mem_append_right _ (List.mem_map.2 ⟨id.index, List.mem_range.2 hi, rfl⟩)
  | _ => exact h.elim

theorem length_le_of_nodup {parts : List TreePart} (hn : parts.Nodup)
    (h : ∀ part ∈ parts, s.Stands part) : parts.length ≤ s.nodeCount := by
  have hle := (List.subperm_of_subset hn fun part hp => mem_nodes (h part hp)).length_le
  simpa [nodes, nodeCount] using hle

/-- A chain without repetition is no longer than the store. -/
theorem Acyclic.within_of_above (h : s.Acyclic) {depth : Nat} {above : List TreePart}
    (hn : above.Nodup) (habove : ∀ a ∈ above, s.Stands a ∧
      Relation.TransGen (fun part child => child ∈ s.below part) a part)
    (hd : s.nodeCount ≤ depth + above.length) : s.Within depth part := by
  induction depth generalizing part above with
  | zero =>
    intro hs
    have hcons : (part :: above).Nodup :=
      List.nodup_cons.2 ⟨fun hm => h part (habove part hm).2, hn⟩
    have hle := length_le_of_nodup hcons (List.forall_mem_cons.2 ⟨hs, fun a ha => (habove a ha).1⟩)
    simp only [List.length_cons] at hle
    omega
  | succ depth ih =>
    intro child hc
    have hcons : (part :: above).Nodup :=
      List.nodup_cons.2 ⟨fun hm => h part (habove part hm).2, hn⟩
    refine ih hcons (List.forall_mem_cons.2 ⟨⟨stands_of_mem_below hc, .single hc⟩, fun a ha =>
      ⟨(habove a ha).1, (habove a ha).2.tail hc⟩⟩) ?_
    simp only [List.length_cons]
    omega

theorem Acyclic.within (h : s.Acyclic) (part : TreePart) : s.Within s.nodeCount part :=
  h.within_of_above List.nodup_nil (by simp) (by simp)

theorem below_of_not_stands (h : ¬ s.Stands part) : s.below part = [] := by
  cases hb : s.below part with
  | nil => rfl
  | cons child rest => exact (h (stands_of_mem_below (hb ▸ List.mem_cons_self))).elim

theorem Within.below (h : s.Within depth part) (hc : child ∈ s.below part) :
    s.Within depth child := by
  induction depth generalizing part child with
  | zero => exact (h (stands_of_mem_below hc)).elim
  | succ depth ih => exact fun next hn => ih (h child hc) hn

theorem Within.walkUpTo_eq (h : s.Within depth part) (more : Nat) :
    s.walkUpTo (depth + 1 + more) part = s.walkUpTo (depth + 1) part := by
  induction depth generalizing part with
  | zero =>
    rw [Nat.zero_add, Nat.add_comm]
    simp [walkUpTo, below_of_not_stands h]
  | succ depth ih =>
    rw [Nat.add_right_comm (depth + 1) 1 more]
    change part :: (s.below part).flatMap (s.walkUpTo (depth + 1 + more)) =
      part :: (s.below part).flatMap (s.walkUpTo (depth + 1))
    rw [List.flatMap_congr fun child hc => ih (h child hc)]

theorem reaches_of_mem_walkUpTo (h : q ∈ s.walkUpTo depth part) : s.Reaches part q := by
  induction depth generalizing part with
  | zero => cases h
  | succ depth ih =>
    rcases List.mem_cons.1 h with rfl | h
    · exact .refl
    · obtain ⟨child, hc, hq⟩ := List.mem_flatMap.1 h
      exact .head hc (ih hq)

theorem Within.mem_walkUpTo (h : s.Within depth part) (hq : s.Reaches part q) :
    q ∈ s.walkUpTo (depth + 1) part := by
  induction depth generalizing part with
  | zero =>
    rcases Relation.ReflTransGen.cases_head hq with rfl | ⟨child, hc, -⟩
    · exact List.mem_cons_self
    · rw [below_of_not_stands h] at hc
      cases hc
  | succ depth ih =>
    rcases Relation.ReflTransGen.cases_head hq with rfl | ⟨child, hc, hq⟩
    · exact List.mem_cons_self
    · exact List.mem_cons_of_mem _ (List.mem_flatMap.2 ⟨child, hc, ih (h child hc) hq⟩)

theorem Acyclic.walk_eq (h : s.Acyclic) : s.walk part = part :: (s.below part).flatMap s.walk :=
  ((h.within part).walkUpTo_eq 1).symm

theorem Acyclic.mem_walk (h : s.Acyclic) {q : TreePart} : q ∈ s.walk part ↔ s.Reaches part q :=
  ⟨reaches_of_mem_walkUpTo, (h.within part).mem_walkUpTo⟩

end Store

end TypedTree
