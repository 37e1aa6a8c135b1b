import GraphQLSyntax.Proofs.Printing.Value

/-!
# Canonical texts of type references
-/

set_option autoImplicit false

namespace GraphQLSyntax

variable {ts : List Token}

theorem NamedTypePhrase.reprints {t : NamedType} (h : NamedTypePhrase ts t) :
    Reprints NamedTypePhrase NamedType.print NamedType.erase ts t := by
  cases h with
  | @mk token n hNull hName =>
    intro hLexed
    cases hName with
    | @mk _ text hText =>
      obtain ⟨hWell, hReadable⟩ := hLexed token List.mem_cons_self
      have hPrint : NamedType.print ⟨⟨text, token.span⟩, token.span⟩ = token.kind.spelling :=
        (spelling_of_nameText? hText).symm
      rw [hPrint]
      refine Restores.token hWell hReadable ?_
      intro u hu
      exact ⟨⟨⟨text, u.span⟩, u.span⟩, .mk (hu ▸ hNull) (.mk (hu ▸ hText)), rfl⟩

section

variable {item : Production TypeReference}

theorem ListTypePhrase.reprints {t : ListType}
    (h : ListTypePhrase (Reprints item TypeReference.print TypeReference.erase) ts t) :
    Reprints (ListTypePhrase item) ListType.print ListType.erase ts t := by
  cases h with
  | @mk first last ts t _ hItem _ =>
    intro hLexed
    have hRestores := hItem (lexed_append.mp (lexed_cons.mp hLexed).2).1
    have hText : ListType.print ⟨t, spanOver (first :: (ts ++ [last]))⟩ = ['['] ++ (t.print ++ [']']) := by
      simp [ListType.print]
    have hClose : Separates [']'] := separates_cons (by decide) []
    have hWhole := (Restores.sign .bracketOpen rfl).closed_seq
      (hRestores.seq (Restores.sign .bracketClose rfl) fun rest _ => hClose rest)
    rw [hText]
    refine hWhole.weaken.imp ?_
    rintro us ⟨_, t', _⟩
      ⟨_, _, rfl, ⟨opening, rfl, hOpening⟩, vs, _, rfl, hPhrase, closing, rfl, hClosing⟩ hSame
    simp only [Prod.map, Prod.mk.injEq] at hSame
    refine ⟨⟨t', spanOver (opening :: (vs ++ [closing]))⟩, .mk hOpening hPhrase hClosing, ?_⟩
    simp only [ListType.erase, hSame.2.1]

theorem NullablePhrase.reprints {t : NullableType}
    (h : NullablePhrase (Reprints item TypeReference.print TypeReference.erase) ts t) :
    Reprints (NullablePhrase item) NullableType.print NullableType.erase ts t := by
  cases h with
  | @named _ t hPhrase =>
    exact hPhrase.reprints.map NullableType.named rfl (fun _ _ => .named) fun _ => rfl
  | @list _ t hPhrase =>
    exact hPhrase.reprints.map NullableType.list rfl (fun _ _ => .list) fun _ => rfl

theorem NonNullPhrase.reprints {t : NonNullType}
    (h : NonNullPhrase (Reprints item TypeReference.print TypeReference.erase) ts t) :
    Reprints (NonNullPhrase item) NonNullType.print NonNullType.erase ts t := by
  cases h with
  | @mk bang ts t hInner _ =>
    intro hLexed
    have hRestores := hInner.reprints (lexed_append.mp hLexed).1
    have hText : NonNullType.print ⟨t, spanOver (ts ++ [bang])⟩ = t.print ++ ['!'] := by
      simp [NonNullType.print]
    have hBang : Separates ['!'] := separates_cons (by decide) []
    have hWhole := hRestores.seq (Restores.sign .bang rfl) fun rest _ => hBang rest
    rw [hText]
    refine hWhole.weaken.imp ?_
    rintro us ⟨t', _⟩ ⟨vs, _, rfl, hPhrase, sign, rfl, hSign⟩ hSame
    simp only [Prod.map, Prod.mk.injEq] at hSame
    refine ⟨⟨t', spanOver (vs ++ [sign])⟩, .mk hPhrase hSign, ?_⟩
    simp only [NonNullType.erase, hSame.1]

end

theorem TypePhrase.reprints {t : TypeReference} (h : TypePhrase ts t) :
    Reprints TypePhrase TypeReference.print TypeReference.erase ts t := by
  apply h.fold (Reprints TypePhrase TypeReference.print TypeReference.erase)
  · intro ts t hPhrase
    exact hPhrase.reprints.map TypeReference.named rfl (fun _ _ => .named) fun _ => rfl
  · intro ts t hPhrase
    exact hPhrase.reprints.map TypeReference.list rfl (fun _ _ => .list) fun _ => rfl
  · intro ts t hPhrase
    exact hPhrase.reprints.map TypeReference.nonNull rfl (fun _ _ => .nonNull) fun _ => rfl

end GraphQLSyntax
