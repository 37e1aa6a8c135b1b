import GraphQLSyntax.Proofs.Grammar.Phrase

/-!
# Induction on derivations

Values, type references and selection sets contain themselves, inside repetitions and other productions. What is to be
shown of one of them may be assumed of those in it, and takes the place of their production there. What follows from it
may take its place in turn.
-/

set_option autoImplicit false

namespace GraphQLSyntax

/-! ## Values -/

section

variable {D E : Production Value} (hItem : ∀ us v, D us v → E us v) {ts : List Token}
include hItem

theorem ListPhrase.mono {v : ListValue} (h : ListPhrase D ts v) : ListPhrase E ts v := by
  obtain ⟨hItems⟩ := h
  exact .mk (hItems.mono hItem)

theorem ObjectFieldPhrase.mono {f : ObjectField} (h : ObjectFieldPhrase D ts f) : ObjectFieldPhrase E ts f := by
  obtain ⟨hName, hColon, hValue⟩ := h
  exact .mk hName hColon (hItem _ _ hValue)

theorem ObjectPhrase.mono {v : ObjectValue} (h : ObjectPhrase D ts v) : ObjectPhrase E ts v := by
  obtain ⟨hFields⟩ := h
  exact .mk (hFields.mono fun _ _ hField => hField.mono hItem)

end

theorem ValuePhrase.fold {references : Bool} (D : Production Value)
    (reference : references = true → ∀ ts v, VariablePhrase ts v → D ts (.reference v))
    (int : ∀ ts v, IntPhrase ts v → D ts (.int v)) (float : ∀ ts v, FloatPhrase ts v → D ts (.float v))
    (string : ∀ ts v, StringPhrase ts v → D ts (.string v)) (word : ∀ ts v, WordPhrase ts v → D ts v)
    (list : ∀ ts v, ListPhrase D ts v → D ts (.list v))
    (object : ∀ ts v, ObjectPhrase D ts v → D ts (.object v))
    {ts : List Token} {v : Value} (h : ValuePhrase references ts v) : D ts v := by
  apply @ValuePhrase.rec references (fun ts v _ => D ts v) (fun ts v _ => ListPhrase D ts v)
    (fun ts v _ => ObjectPhrase D ts v) (fun ts vs _ => Enclosed .bracketOpen .bracketClose D ts vs)
    (fun ts fs _ => Enclosed .braceOpen .braceClose (ObjectFieldPhrase D) ts fs)
    (fun ts vs _ => Repeated D ts vs) (fun ts fs _ => Repeated (ObjectFieldPhrase D) ts fs)
    (fun ts f _ => ObjectFieldPhrase D ts f) _ _ _ _ _ _ _ _ _ _ _ _ _ _ _ _ ts v h
  · exact fun hReferences hPhrase => reference hReferences _ _ hPhrase
  · exact fun hPhrase => int _ _ hPhrase
  · exact fun hPhrase => float _ _ hPhrase
  · exact fun hPhrase => string _ _ hPhrase
  · exact fun hPhrase => word _ _ hPhrase
  · exact fun _ ih => list _ _ ih
  · exact fun _ ih => object _ _ ih
  · exact fun _ ih => .mk ih
  · exact fun _ ih => .mk ih
  · exact fun hFirst _ hLast ih => .mk hFirst ih hLast
  · exact fun hFirst _ hLast ih => .mk hFirst ih hLast
  · exact .nil
  · exact fun _ _ ih ih' => .cons ih ih'
  · exact .nil
  · exact fun _ _ ih ih' => .cons ih ih'
  · exact fun hName hColon _ ih => .mk hName hColon ih

/-- Where no variables are allowed, the values are some of those that there are where they are. -/
theorem ValuePhrase.allow {references : Bool} {ts : List Token} {v : Value} (h : ValuePhrase references ts v) :
    ValuePhrase true ts v := by
  apply h.fold (ValuePhrase true)
  · exact fun _ _ _ hPhrase => .reference rfl hPhrase
  · exact fun _ _ hPhrase => .int hPhrase
  · exact fun _ _ hPhrase => .float hPhrase
  · exact fun _ _ hPhrase => .string hPhrase
  · exact fun _ _ hPhrase => .word hPhrase
  · exact fun _ _ hPhrase => .list hPhrase
  · exact fun _ _ hPhrase => .object hPhrase

/-! ## Type references -/

section

variable {D E : Production TypeReference} (hItem : ∀ us t, D us t → E us t) {ts : List Token}
include hItem

theorem ListTypePhrase.mono {t : ListType} (h : ListTypePhrase D ts t) : ListTypePhrase E ts t := by
  obtain ⟨hFirst, hType, hLast⟩ := h
  exact .mk hFirst (hItem _ _ hType) hLast

theorem NullablePhrase.mono {t : NullableType} (h : NullablePhrase D ts t) : NullablePhrase E ts t := by
  cases h with
  | named hPhrase => exact .named hPhrase
  | list hPhrase => exact .list (hPhrase.mono hItem)

theorem NonNullPhrase.mono {t : NonNullType} (h : NonNullPhrase D ts t) : NonNullPhrase E ts t := by
  obtain ⟨hInner, hBang⟩ := h
  exact .mk (hInner.mono hItem) hBang

end

theorem TypePhrase.fold (D : Production TypeReference)
    (named : ∀ ts t, NamedTypePhrase ts t → D ts (.named t))
    (list : ∀ ts t, ListTypePhrase D ts t → D ts (.list t))
    (nonNull : ∀ ts t, NonNullPhrase D ts t → D ts (.nonNull t))
    {ts : List Token} {t : TypeReference} (h : TypePhrase ts t) : D ts t := by
  apply @TypePhrase.rec (fun ts t _ => D ts t) (fun ts t _ => ListTypePhrase D ts t)
    (fun ts t _ => NonNullPhrase D ts t) (fun ts t _ => NullablePhrase D ts t) _ _ _ _ _ _ _ ts t h
  · exact fun hPhrase => named _ _ hPhrase
  · exact fun _ ih => list _ _ ih
  · exact fun _ ih => nonNull _ _ ih
  · exact fun hFirst _ hLast ih => .mk hFirst ih hLast
  · exact fun _ hBang ih => .mk ih hBang
  · exact fun hPhrase => .named hPhrase
  · exact fun _ ih => .list ih

/-! ## Selection sets -/

section

variable {D E : Production SelectionSet} (hSub : ∀ us s, D us s → E us s) {ts : List Token}
include hSub

theorem FieldPhrase.mono {f : Field} (h : FieldPhrase D ts f) : FieldPhrase E ts f := by
  obtain ⟨hAlias, hName, hArguments, hDirectives, hSet⟩ := h
  exact .mk hAlias hName hArguments hDirectives (hSet.mono hSub)

theorem InlineFragmentPhrase.mono {f : InlineFragment} (h : InlineFragmentPhrase D ts f) :
    InlineFragmentPhrase E ts f := by
  obtain ⟨hDots, hCondition, hDirectives, hSet⟩ := h
  exact .mk hDots hCondition hDirectives (hSub _ _ hSet)

theorem SelectionPhrase.mono {s : Selection} (h : SelectionPhrase D ts s) : SelectionPhrase E ts s := by
  cases h with
  | field hPhrase => exact .field (hPhrase.mono hSub)
  | fragmentSpread hPhrase => exact .fragmentSpread hPhrase
  | inlineFragment hPhrase => exact .inlineFragment (hPhrase.mono hSub)

end

theorem SelectionSetPhrase.fold (D : Production SelectionSet)
    (set : ∀ ts ss, ss ≠ [] → Enclosed .braceOpen .braceClose (SelectionPhrase D) ts ss →
      D ts ⟨ss, spanOver ts⟩)
    {ts : List Token} {s : SelectionSet} (h : SelectionSetPhrase ts s) : D ts s := by
  apply @SelectionSetPhrase.rec (fun ts s _ => D ts s)
    (fun ts ss _ => Enclosed .braceOpen .braceClose (SelectionPhrase D) ts ss)
    (fun ts ss _ => Repeated (SelectionPhrase D) ts ss) (fun ts s _ => SelectionPhrase D ts s)
    (fun ts f _ => FieldPhrase D ts f) (fun ts f _ => InlineFragmentPhrase D ts f)
    (fun ts s _ => Optional D ts s) _ _ _ _ _ _ _ _ _ _ _ ts s h
  · exact fun hNonempty _ ih => set _ _ hNonempty ih
  · exact fun hFirst _ hLast ih => .mk hFirst ih hLast
  · exact .nil
  · exact fun _ _ ih ih' => .cons ih ih'
  · exact fun _ ih => .field ih
  · exact fun hPhrase => .fragmentSpread hPhrase
  · exact fun _ ih => .inlineFragment ih
  · exact fun hAlias hName hArguments hDirectives _ ih => .mk hAlias hName hArguments hDirectives ih
  · exact fun hDots hCondition hDirectives _ ih => .mk hDots hCondition hDirectives ih
  · exact .absent
  · exact fun _ ih => .present ih

end GraphQLSyntax
