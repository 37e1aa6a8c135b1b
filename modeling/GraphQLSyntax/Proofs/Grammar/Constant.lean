import GraphQLSyntax.Proofs.Grammar.Induction

/-!
# Constant values

A value that refers to no variable, at whatever depth. Where no variables are allowed, the values are the constant ones
of those that there are where they are.
-/

set_option autoImplicit false

namespace GraphQLSyntax

mutual

def Value.isConstant : Value → Bool
  | .reference _ => false
  | .list v => v.isConstant
  | .object v => v.isConstant
  | .boolean _ | .enum _ | .float _ | .int _ | .null _ | .string _ => true

def ListValue.isConstant : ListValue → Bool
  | ⟨values, _⟩ => Value.areConstant values

def ObjectValue.isConstant : ObjectValue → Bool
  | ⟨fields, _⟩ => ObjectField.areConstant fields

def ObjectField.isConstant : ObjectField → Bool
  | ⟨_, value, _⟩ => value.isConstant

def Value.areConstant : List Value → Bool
  | [] => true
  | v :: vs => v.isConstant && Value.areConstant vs

def ObjectField.areConstant : List ObjectField → Bool
  | [] => true
  | f :: fs => f.isConstant && ObjectField.areConstant fs

end

theorem Value.areConstant_iff {vs : List Value} : Value.areConstant vs = true ↔ ∀ v ∈ vs, v.isConstant = true := by
  induction vs with
  | nil => simp [Value.areConstant]
  | cons v vs ih => rw [Value.areConstant, Bool.and_eq_true, ih, List.forall_mem_cons]

theorem ObjectField.areConstant_iff {fs : List ObjectField} :
    ObjectField.areConstant fs = true ↔ ∀ f ∈ fs, f.isConstant = true := by
  induction fs with
  | nil => simp [ObjectField.areConstant]
  | cons f fs ih => rw [ObjectField.areConstant, Bool.and_eq_true, ih, List.forall_mem_cons]

/-! ## Items -/

section

variable {α : Type} {D E : Production α} {P : α → Prop} {opening closing : Punctuator} {ts : List Token} {as : List α}

/-- Another production takes some of the items. -/
theorem Repeated.mono_of_forall (h : Repeated D ts as) (hAll : ∀ a ∈ as, P a)
    (hItem : ∀ us a, D us a → P a → E us a) : Repeated E ts as := by
  induction h with
  | nil => exact .nil
  | cons hPhrase _ ih =>
    obtain ⟨hFirst, hOthers⟩ := List.forall_mem_cons.mp hAll
    exact .cons (hItem _ _ hPhrase hFirst) (ih hOthers)

theorem Enclosed.mono_of_forall (h : Enclosed opening closing D ts as) (hAll : ∀ a ∈ as, P a)
    (hItem : ∀ us a, D us a → P a → E us a) : Enclosed opening closing E ts as := by
  obtain ⟨hFirst, hItems, hLast⟩ := h
  exact .mk hFirst (hItems.mono_of_forall hAll hItem) hLast

end

/-! ## Values without variables -/

variable {ts : List Token} {v : Value}

theorem ValuePhrase.isConstant (h : ValuePhrase false ts v) : v.isConstant = true := by
  apply h.fold fun _ v => v.isConstant = true
  case reference => exact nofun
  case word =>
    rintro _ _ (hKind | hKind | hKind) <;> rfl
  case list =>
    rintro ts _ ⟨hItems⟩
    refine Value.areConstant_iff.mpr fun v hv => ?_
    obtain ⟨us, -, hConstant⟩ := hItems.infix_of_mem v hv
    exact hConstant
  case object =>
    rintro ts _ ⟨hFields⟩
    refine ObjectField.areConstant_iff.mpr fun f hf => ?_
    obtain ⟨us, -, ⟨-, -, hConstant⟩⟩ := hFields.infix_of_mem f hf
    exact hConstant
  all_goals exact fun _ _ _ => rfl

/-- A constant value takes the same tokens where no variables are allowed. -/
theorem ValuePhrase.forbid {references : Bool} (h : ValuePhrase references ts v) (hConstant : v.isConstant = true) :
    ValuePhrase false ts v := by
  refine h.fold (fun ts v => v.isConstant = true → ValuePhrase false ts v) ?_ ?_ ?_ ?_ ?_ ?_ ?_ hConstant
  · exact fun _ _ _ _ hNone => nomatch hNone
  · exact fun _ _ hPhrase _ => .int hPhrase
  · exact fun _ _ hPhrase _ => .float hPhrase
  · exact fun _ _ hPhrase _ => .string hPhrase
  · exact fun _ _ hPhrase _ => .word hPhrase
  · rintro ts _ ⟨hItems⟩ hConstant
    refine .list (.mk (hItems.mono_of_forall (Value.areConstant_iff.mp hConstant) ?_))
    exact fun _ _ hPhrase => hPhrase
  · rintro ts _ ⟨hFields⟩ hConstant
    refine .object (.mk (hFields.mono_of_forall (ObjectField.areConstant_iff.mp hConstant) ?_))
    rintro us _ ⟨hName, hColon, hPhrase⟩ hField
    exact .mk hName hColon (hPhrase hField)

theorem derives_constValue_iff :
    Derives .constValue ts (.constValue v) ↔ Derives .value ts (.value v) ∧ v.isConstant = true := by
  refine (wrapped_iff Construct.constValue.inj).trans (.trans ?_ (and_congr_left' (wrapped_iff Construct.value.inj).symm))
  exact ⟨fun h => ⟨h.allow, h.isConstant⟩, fun ⟨h, hConstant⟩ => h.forbid hConstant⟩

end GraphQLSyntax
