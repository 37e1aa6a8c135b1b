import GraphQLSyntax.Proofs.Faults.Enclosure
import GraphQLSyntax.Proofs.Parsing.TypeReference

/-!
# Type references
-/

set_option autoImplicit false

namespace GraphQLSyntax.Parser

variable {room : Nat}

/-! ## Named types -/

/-- The kinds of the tokens that can name a type. -/
def isTypeNameKind (k : TokenKind) : Prop := isNameKind k ∧ k ≠ .null

theorem phrases_namedType : phrases NamedTypePhrase (fun _ => 0) = tokenOf isTypeNameKind := by
  refine phrases_token fun ts => ⟨?_, ?_⟩
  · rintro ⟨_, ⟨hNull, ⟨hText⟩⟩⟩
    exact ⟨_, rfl, by rw [isNameKind, hText]; rfl, hNull⟩
  · rintro ⟨t, rfl, hName, hNull⟩
    obtain ⟨text, hText⟩ := Option.isSome_iff_exists.mp hName
    exact ⟨_, .mk hNull (.mk hText)⟩

theorem completable_namedType : Completable (phrases NamedTypePhrase fun _ => 0) := by
  rw [phrases_namedType]
  exact completable_tokenOf (k := .boolean true) ⟨rfl, by simp⟩ trivial

theorem starts_namedType (K : Prospect) :
    Starts (phrases NamedTypePhrase (fun _ => 0) * K) isTypeNameKind := by
  rw [phrases_namedType]
  exact (starts_tokenOf fun h => nomatch h.1).mul K

theorem foresees_namedType : Foresees maxDepth namedType (phrases NamedTypePhrase fun _ => 0) [] := by
  intro s K hRoom hCompletable hK
  have h := Reached.refl s hCompletable
  rw [namedType]
  refine Foretold.peek looks_peekKind h ?_
  intro s₁ h₁ hSame
  rw [← hSame]
  split
  · rename_i hNull
    rw [beq_iff_eq] at hNull
    have hFront : front s₁.rest = some .null := by
      rw [front, hNull]
      rfl
    refine h₁.refuseHere (fun span => ⟨_, span, .reservedName "null" .namedType, _⟩) hFront
      (fun _ _ => rfl) (fun _ => rfl) (fun _ => rfl) (blocked_of_starts (starts_namedType K) ?_ ?_)
    · intro k hk
      rw [hFront] at hk
      cases hk
      exact fun h => h.2 rfl
    · exact fun k hk => isClosing_of_isNameKind hk.1
  · rename_i hNull
    rw [phrases_namedType] at *
    refine (Foretold.name h₁ (fun _ hk => hk.1) ?_).map _
    rintro k hFront hk
    refine ⟨hk, ?_⟩
    rintro rfl
    rw [nextKind_of_front hFront] at hNull
    exact hNull rfl

/-! ## Lists and non-null types -/

section

variable {D : Production TypeReference} {nest : TypeReference → Nat}

theorem phrases_listType : phrases (ListTypePhrase D) ListType.nesting =
    sign .bracketOpen * (phrases D TypeReference.nesting * sign .bracketClose) := by
  ext limit ts
  constructor
  · rintro ⟨_, ⟨hFirst, hItem, hLast⟩, hNest⟩
    exact mem_tokenOf_mul.mpr ⟨_, _, rfl, hFirst,
      mem_mul.mpr ⟨_, ⟨_, hItem, hNest⟩, [_], ⟨_, rfl, hLast⟩, rfl⟩⟩
  · intro hts
    obtain ⟨first, us, rfl, hFirst, hus⟩ := mem_tokenOf_mul.mp hts
    obtain ⟨vs, ⟨t, hItem, hNest⟩, _, ⟨last, rfl, hLast⟩, rfl⟩ := mem_mul.mp hus
    exact ⟨_, .mk hFirst hItem hLast, hNest⟩

theorem phrases_nonNull : phrases (NonNullPhrase D) NonNullType.inside =
    phrases (NullablePhrase D) NullableType.nesting * sign .bang := by
  ext limit ts
  constructor
  · rintro ⟨_, ⟨hInner, hIs⟩, hNest⟩
    exact mem_mul.mpr ⟨_, ⟨_, hInner, hNest⟩, [_], ⟨_, rfl, hIs⟩, rfl⟩
  · intro hts
    obtain ⟨us, ⟨t, hInner, hNest⟩, _, ⟨bang, rfl, hIs⟩, rfl⟩ := mem_mul.mp hts
    exact ⟨_, .mk hInner hIs, hNest⟩

/-- A type is one that can be null, with or without the mark that it is not. -/
theorem phrases_type : phrases TypePhrase TypeReference.inside =
    phrases (NullablePhrase TypePhrase) NullableType.nesting * (1 + sign .bang) := by
  rw [mul_add, mul_one, ← phrases_nonNull]
  ext limit ts
  constructor
  · rintro ⟨_, hPhrase, hNest⟩
    cases hPhrase with
    | named hPhrase => exact .inl ⟨_, .named hPhrase, hNest⟩
    | list hPhrase => exact .inl ⟨_, .list hPhrase, hNest⟩
    | nonNull hPhrase => exact .inr ⟨_, hPhrase, hNest⟩
  · rintro (⟨_, hPhrase, hNest⟩ | ⟨t, hPhrase, hNest⟩)
    · cases hPhrase with
      | named hPhrase => exact ⟨_, .named hPhrase, hNest⟩
      | list hPhrase => exact ⟨_, .list hPhrase, hNest⟩
    · exact ⟨_, .nonNull hPhrase, hNest⟩

/-- The kinds of the tokens that a type starts with. -/
def isTypeKind (k : TokenKind) : Prop := isTypeNameKind k ∨ k = .punctuator .bracketOpen

theorem isClosing_of_isTypeKind (k : TokenKind) (hk : isTypeKind k) : k.isClosing = false := by
  obtain hName | rfl := hk
  · exact isClosing_of_isNameKind hName.1
  · rfl

theorem starts_listType (nest : ListType → Nat) :
    Starts (phrases (ListTypePhrase D) nest) (· = .punctuator .bracketOpen) := by
  refine starts_phrases ?_ fun h => nomatch h
  rintro _ _ ⟨hIs, -, -⟩
  exact ⟨_, _, rfl, hIs⟩

theorem starts_nullable : Starts (phrases (NullablePhrase D) NullableType.nesting) isTypeKind := by
  rintro limit ts ⟨_, hPhrase, hNest⟩
  cases hPhrase with
  | named hPhrase =>
    have hNamed : ts ∈ phrases NamedTypePhrase (fun _ => 0) limit := ⟨_, hPhrase, zero_le⟩
    rw [phrases_namedType] at hNamed
    obtain ⟨k, hFront, hk⟩ := starts_tokenOf (fun h => nomatch h.1) hNamed
    exact ⟨k, hFront, .inl hk⟩
  | list hPhrase =>
    obtain ⟨k, hFront, hk⟩ := starts_listType ListType.nesting ⟨_, hPhrase, hNest⟩
    exact ⟨k, hFront, .inr hk⟩

theorem starts_type : Starts (phrases TypePhrase TypeReference.nesting) isTypeKind := by
  have hInside : Starts (phrases TypePhrase TypeReference.inside) isTypeKind := by
    rw [phrases_type]
    exact starts_nullable.mul _
  exact hInside.renest

theorem completable_nullable : Completable (phrases (NullablePhrase D) NullableType.nesting) := by
  obtain ⟨ts, ⟨t, hPhrase, -⟩, hWell⟩ := completable_namedType
  exact ⟨ts, ⟨_, .named hPhrase, le_top⟩, hWell⟩

theorem completable_type : Completable (phrases TypePhrase nest) := by
  obtain ⟨ts, ⟨t, hPhrase, -⟩, hWell⟩ := completable_namedType
  exact ⟨ts, ⟨_, .named hPhrase, le_top⟩, hWell⟩

theorem completable_listType : Completable (phrases (ListTypePhrase TypePhrase) ListType.nesting) := by
  rw [phrases_listType]
  exact (completable_sign _).mul (completable_type.mul (completable_sign _))

theorem completable_nonNull : Completable (phrases (NonNullPhrase TypePhrase) NonNullType.nesting) := by
  have hInside : Completable (phrases (NonNullPhrase TypePhrase) NonNullType.inside) := by
    rw [phrases_nonNull]
    exact completable_nullable.mul (completable_sign _)
  exact hInside.renest

end

section

variable {item : Parser TypeReference}
  (hItem : Foresees room item (phrases TypePhrase TypeReference.nesting) [.bang])

include hItem

theorem foresees_listTypeOf :
    Foresees room (listTypeOf item) (phrases (ListTypePhrase TypePhrase) ListType.nesting) [] := by
  intro s K hRoom hCompletable _
  have h := Reached.refl s hCompletable
  rw [phrases_listType, mul_assoc, mul_assoc] at *
  rw [listTypeOf]
  refine Foretold.openEnclosure (e := .listType) h ?_
  intro t s₁ _ h₁
  refine Foretold.refuseEnd h₁ (starts_type.mul _) ?_ ?_
  · intro k hk hIs
    rw [isClosing_of_isTypeKind k hk] at hIs
    cases hIs
  intro s₂ h₂ _ _
  have hStop : Avoids (sign .bracketClose * K) (IsSign [.bang]) :=
    (starts_sign _ _).avoids (IsSign.not_of_disjoint (by decide))
  refine hItem.bind h₂ hRoom hStop ?_
  intro _ s₃ h₃
  refine Foretold.closeEnclosure (e := .listType) h₃ ?_
  intro s₄ h₄
  exact .spanFrom h₄

theorem foresees_nullableTypeOf : Foresees room (nullableTypeOf item)
    (phrases (NullablePhrase TypePhrase) NullableType.nesting) [] := by
  intro s K hRoom hCompletable hK
  rw [nullableTypeOf]
  refine Foretold.peek (looks_peekIs .bracketOpen) (.refl s hCompletable) ?_
  intro s₁ h₁ hSame
  rw [← hSame]
  split
  · rename_i hIs
    refine ((foresees_listTypeOf hItem).call (h₁.alternative .list (nextIs_iff_front.mp hIs)
      completable_listType starts_nullable (fun h => ⟨.list h, rfl⟩) ?_) hRoom hK).map _
    intro ts t hPhrase hFront
    cases hPhrase with
    | list hPhrase => exact ⟨_, hPhrase, rfl⟩
    | named hPhrase =>
      have hNamed : ts ∈ (phrases NamedTypePhrase (fun _ => 0) * 1) ⊤ := by
        rw [mul_one]
        exact ⟨_, hPhrase, zero_le⟩
      obtain ⟨k, hFront', hk⟩ := starts_namedType 1 hNamed
      rw [hFront] at hFront'
      cases hFront'
      cases hk.1
  · rename_i hIs
    refine (foresees_namedType.call (h₁.otherwise (S := (· = .punctuator .bracketOpen)) .named ?_ ?_
      completable_namedType (fun h => ⟨.named h, rfl⟩) ?_ ?_) s.room_le hK).map _
    · rintro k hFront rfl
      exact hIs (nextIs_iff_front.mpr hFront)
    · rintro k rfl
      rfl
    · intro ts t hPhrase hFront
      cases hPhrase with
      | named hPhrase => exact ⟨_, hPhrase, rfl⟩
      | list hPhrase =>
        have hList : ts ∈ phrases (ListTypePhrase TypePhrase) (fun _ => 0) ⊤ := ⟨_, hPhrase, zero_le⟩
        obtain ⟨k, hFront', hk⟩ := starts_listType _ hList
        exact absurd hk (hFront k hFront')
    · intro limit ts _
      obtain ⟨us, ⟨t, hPhrase, -⟩, -⟩ := completable_namedType
      exact ⟨us, t, hPhrase, zero_le⟩

theorem foresees_typeReferenceOf : Foresees room (typeReferenceOf item)
    (phrases TypePhrase TypeReference.inside) [.bang] := by
  intro s K hRoom hCompletable hK
  have h := Reached.refl s hCompletable
  rw [phrases_type, mul_assoc] at *
  rw [typeReferenceOf]
  refine (foresees_nullableTypeOf hItem).bind h hRoom (avoids_nil _) ?_
  intro t s₁ h₁
  refine Foretold.ifNext (looks_peekIs .bang) nextIs_iff_isSign h₁ (completable_sign _) ?_
    (isClosing_of_isSign rfl) hK ?_ ?_
  · rw [← mul_one (sign .bang)]
    exact starts_sign _ _
  · intro s₂ _ _ _ h₂
    refine Foretold.map (p := finishNonNull t) ?_ _
    rw [finishNonNull]
    refine Foretold.expect rfl h₂ ?_
    intro bang s₃ h₃
    exact .spanFrom h₃
  · intro s₂ h₂
    exact h₂

end

theorem foresees_typeReferenceWithin (room : Nat) :
    Foresees room (typeReferenceWithin room) (phrases TypePhrase TypeReference.nesting) [.bang] := by
  induction room with
  | zero => exact foresees_tooDeep (phrases_succ_zero _ _)
  | succ room ih =>
    exact (foresees_typeReferenceOf ih).nested (inner_phrases_succ _ _) (phrases_succ_zero _ _)

theorem foresees_typeReference :
    Foresees maxDepth typeReference (phrases TypePhrase TypeReference.nesting) [.bang] :=
  foresees_typeReferenceWithin maxDepth

theorem foresees_listType :
    Foresees maxDepth listType (phrases (ListTypePhrase TypePhrase) ListType.nesting) [] :=
  foresees_listTypeOf foresees_typeReference

theorem foresees_nonNullType :
    Foresees maxDepth nonNullType (phrases (NonNullPhrase TypePhrase) NonNullType.nesting) [] := by
  have hFlat : Foresees maxDepth (do finishNonNull (← nullableTypeOf typeReference))
      (phrases (NonNullPhrase TypePhrase) NonNullType.inside) [] := by
    intro s K hRoom hCompletable hK
    have h := Reached.refl s hCompletable
    rw [phrases_nonNull, mul_assoc] at *
    refine (foresees_nullableTypeOf foresees_typeReference).bind h hRoom (avoids_nil _) ?_
    intro t s₁ h₁
    rw [finishNonNull]
    refine Foretold.expect rfl h₁ ?_
    intro bang s₂ h₂
    exact .spanFrom h₂
  exact (hFlat.nested (inner_phrases_succ _ _) (phrases_succ_zero _ _)).anti (Nat.le_succ _)

end GraphQLSyntax.Parser
