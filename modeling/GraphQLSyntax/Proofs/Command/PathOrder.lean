import Mathlib.Data.List.Basic
import GraphQLSyntax.Command.CheckFiles

/-!
# The order of outcomes

The components of paths are ordered linearly, and so are the paths by their components. Outcomes are sorted by
their paths: one that joins the others comes to stand before the first that is not in front of it.
-/

set_option autoImplicit false

namespace GraphQLSyntax

/-! ## Components -/

def PathComponent.name : PathComponent → String
  | normal name => name
  | _ => ""

/-- Components are ordered by their ranks and then by their names. -/
theorem PathComponent.order_eq :
    PathComponent.order = compareLex (compareOn PathComponent.rank) (compareOn PathComponent.name) := by
  funext a b
  cases a <;> cases b <;> rfl

instance : Std.TransCmp PathComponent.order := by
  rw [PathComponent.order_eq]
  infer_instance

instance : Std.LawfulEqCmp PathComponent.order where
  eq_of_compare {a b} h := by
    cases a <;> cases b <;> try first | rfl | cases h
    case normal.normal a b => exact congrArg PathComponent.normal (Std.compare_eq_iff_eq.mp h)

theorem Path.orderComponents_eq : Path.orderComponents = List.compareLex PathComponent.order := by
  funext as bs
  induction as generalizing bs with
  | nil => cases bs <;> rfl
  | cons a as ih =>
    cases bs with
    | nil => rfl
    | cons b bs => rw [Path.orderComponents, ih, List.compareLex_cons_cons]

instance : Std.TransCmp Path.orderComponents := by
  rw [Path.orderComponents_eq]
  infer_instance

instance : Std.LawfulEqCmp Path.orderComponents := by
  rw [Path.orderComponents_eq]
  infer_instance

/-! ## Outcomes -/

namespace FileOutcome

variable {a b : FileOutcome}

theorem before_iff :
    a.before b = true ↔ (Path.orderComponents a.path.components b.path.components).isLE = true := by
  unfold before Path.order
  cases Path.orderComponents a.path.components b.path.components <;> decide

theorem before_trans (a b c : FileOutcome) :
    a.before b = true → b.before c = true → a.before c = true := by
  intro hab hbc
  rw [before_iff] at hab hbc ⊢
  exact Std.TransCmp.isLE_trans hab hbc

theorem before_total (a b : FileOutcome) : (a.before b || b.before a) = true := by
  have hSwap : Path.orderComponents b.path.components a.path.components =
      (Path.orderComponents a.path.components b.path.components).swap := Std.OrientedCmp.eq_swap
  rw [Bool.or_eq_true, before_iff, before_iff, hSwap]
  cases Path.orderComponents a.path.components b.path.components <;> decide

theorem before_refl (a : FileOutcome) : a.before a = true := by
  simpa using before_total a a

/-- Outcomes of the same path are before the same outcomes. -/
theorem before_eq (h : a.path.components = b.path.components) : a.before = b.before := by
  funext c
  unfold before Path.order
  rw [h]

end FileOutcome

/-- The outcomes in the order of their paths. -/
def sortOutcomes (outcomes : List FileOutcome) : List FileOutcome :=
  outcomes.mergeSort FileOutcome.before

theorem sortOutcomes_perm (outcomes : List FileOutcome) : (sortOutcomes outcomes).Perm outcomes :=
  List.mergeSort_perm _ _

theorem pairwise_sortOutcomes (outcomes : List FileOutcome) :
    (sortOutcomes outcomes).Pairwise fun a b => a.before b = true :=
  List.pairwise_mergeSort FileOutcome.before_trans FileOutcome.before_total outcomes

/-- The first outcome is put before all those that it is before. -/
theorem sortOutcomes_cons (a : FileOutcome) (outcomes : List FileOutcome) :
    sortOutcomes (a :: outcomes) = (sortOutcomes outcomes).filter (fun b => !a.before b) ++
      a :: (sortOutcomes outcomes).filter a.before := by
  obtain ⟨front, back, hSorted, hRest, hFront⟩ :=
    List.mergeSort_cons FileOutcome.before_trans FileOutcome.before_total a outcomes
  have hPairwise := pairwise_sortOutcomes (a :: outcomes)
  rw [sortOutcomes, hSorted, List.pairwise_append, List.pairwise_cons] at hPairwise
  have hBack : ∀ b ∈ back, a.before b = true := hPairwise.2.1.1
  have hFrontNot : ∀ b ∈ front, ¬a.before b = true := fun b hb => by
    rw [Bool.not_eq_true, ← Bool.not_eq_true']
    exact hFront b hb
  rw [sortOutcomes, sortOutcomes, hSorted, hRest, List.filter_append, List.filter_append,
    List.filter_eq_self.mpr hFront, List.filter_eq_nil_iff.mpr hFrontNot,
    List.filter_eq_self.mpr hBack, List.filter_eq_nil_iff.mpr (fun b hb => by simp [hBack b hb]),
    List.append_nil, List.nil_append]

/-- Of two outcomes of the same path, the one that came first stays first. -/
theorem sortOutcomes_pair {a b : FileOutcome} (h : a.path.components = b.path.components)
    (outcomes : List FileOutcome) :
    sortOutcomes (a :: b :: outcomes) = (sortOutcomes outcomes).filter (fun c => !a.before c) ++
      a :: b :: (sortOutcomes outcomes).filter a.before := by
  have hb : a.before b = true := by rw [FileOutcome.before_eq h, FileOutcome.before_refl]
  rw [sortOutcomes_cons, sortOutcomes_cons, ← FileOutcome.before_eq h]
  simp [List.filter_append, hb]

end GraphQLSyntax
