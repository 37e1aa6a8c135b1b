import GraphQLSyntax.Parser.TypeReference
import GraphQLSyntax.Proofs.Parsing.Value

/-!
# Parsers of type references

An exclamation mark after a type could go on with it, and no other token could.
-/

set_option autoImplicit false

namespace GraphQLSyntax.Parser

variable {room : Nat}

theorem implements_namedType : Implements maxDepth namedType NamedTypePhrase [] fun _ => 0 where
  sound := by
    intro s s' t h
    rw [namedType] at h
    obtain ⟨s₁, hPeek, h⟩ := (peekKind_peeks s).bind_eq_ok h
    split at h
    · obtain ⟨span, s₂, -, h⟩ := bind_eq_ok h
      cases h
    · rename_i hNull
      obtain ⟨ts, n, s₂, hMoves, hPhrase, -, h⟩ := implements_name.bind_eq_ok h
      cases h
      cases hPhrase with
      | @mk u text hText =>
        rw [← hPeek.nextKind_eq, hMoves.rest, List.singleton_append, nextKind_cons] at hNull
        exact ⟨[u], hPeek.trans hMoves, .mk (fun hKind => hNull (by rw [hKind]; rfl)) (.mk hText),
          Nat.zero_le _⟩
  complete := by
    rintro s _ rest _ hRoom ⟨hNull, hPhrase⟩ hStop
    rw [namedType]
    refine Accepts.peek (a := nextKind) (peekKind_peeks s) ?_
    intro s₁ hPeek
    rw [List.singleton_append, nextKind_cons, if_neg (by simpa using hNull)]
    obtain ⟨hText⟩ := hPhrase
    exact (implements_name.complete (hPeek.room ▸ hRoom) (.mk hText) hStop).bind_last (Nat.zero_le _)
      fun _ _ => .pure _ _ _ _

theorem namedType_startsWith : StartsWith NamedTypePhrase isNameKind := by
  rintro _ _ ⟨-, hPhrase⟩
  exact name_startsWith hPhrase

theorem namedType_startsOver {ts : List Token} {t : NamedType} (h : NamedTypePhrase ts t) :
    t.span.StartsOver ts := by
  cases h
  exact Span.startsOver_token _ []

theorem nullable_startsWith {D : Production TypeReference} : StartsWith (NullablePhrase D)
    fun k => isNameKind k ∨ k = .punctuator .bracketOpen := by
  intro ts t hPhrase
  cases hPhrase with
  | named hPhrase =>
    obtain ⟨u, us, rfl, hu⟩ := namedType_startsWith hPhrase
    exact ⟨u, us, rfl, .inl hu⟩
  | list hPhrase =>
    obtain ⟨hIs, -, -⟩ := hPhrase
    exact ⟨_, _, rfl, .inr hIs⟩

theorem nullable_startsOver {D : Production TypeReference} {ts : List Token} {t : NullableType}
    (h : NullablePhrase D ts t) : t.span.StartsOver ts := by
  cases h with
  | named hPhrase => exact namedType_startsOver hPhrase
  | list hPhrase =>
    obtain ⟨-, -, -⟩ := hPhrase
    exact Span.startsOver_spanOver (List.cons_ne_nil _ _)

theorem type_startsWith : StartsWith TypePhrase
    fun k => isNameKind k ∨ k = .punctuator .bracketOpen := by
  intro ts t hPhrase
  cases hPhrase with
  | named hPhrase => exact nullable_startsWith (D := TypePhrase) (.named hPhrase)
  | list hPhrase => exact nullable_startsWith (.list hPhrase)
  | nonNull hPhrase =>
    obtain ⟨hPhrase, -⟩ := hPhrase
    obtain ⟨u, us, rfl, hu⟩ := nullable_startsWith hPhrase
    exact ⟨u, _, rfl, hu⟩

/-! ## Exclamation marks -/

section

variable {s s₀ s' : ParserState} {ts : List Token} {inner : NullableType}

theorem finishNonNull_eq_ok {t : NonNullType} (h : finishNonNull inner s = .ok t s')
    (hInner : Moves s₀ ts s) (hSpan : inner.span.StartsOver ts) :
    ∃ bang, Moves s [bang] s' ∧ bang.Is .bang ∧ t = ⟨inner, spanOver (ts ++ [bang])⟩ := by
  rw [finishNonNull] at h
  obtain ⟨bang, s₁, hMoves, hIs, h⟩ := expect_bind_eq_ok h
  obtain ⟨rfl, rfl⟩ := spanFrom_eq_ok h
  exact ⟨bang, hMoves, hIs, by rw [(hInner.trans hMoves).spanFrom (hSpan.append _)]⟩

theorem Accepts.finishNonNull {bang : Token} {rest : List Token} (hIs : bang.Is .bang)
    (hInner : Moves s₀ ts s) (hSpan : inner.span.StartsOver ts) :
    Accepts (Parser.finishNonNull inner) s [bang] rest ⟨inner, spanOver (ts ++ [bang])⟩ 0 := by
  rw [Parser.finishNonNull]
  refine Accepts.expect hIs ?_
  intro s₁ hMoves
  exact .spanFrom ((hInner.trans hMoves).spanFrom (hSpan.append _))

end

/-! ## Type references -/

section

variable {item : Parser TypeReference} (hItem : Implements room item TypePhrase [.bang] TypeReference.nesting)

include hItem

theorem implements_listTypeOf :
    Implements room (listTypeOf item) (ListTypePhrase TypePhrase) [] ListType.nesting where
  sound := by
    intro s s' t h
    rw [listTypeOf] at h
    obtain ⟨first, s₁, hOpen, hFirstIs, h⟩ := openEnclosure_bind_eq_ok h
    obtain ⟨_, s₂, hRefuse, h⟩ := bind_eq_ok h
    have hPeek := refuseEnd_eq_ok hRefuse
    obtain ⟨ts, inner, s₃, hInner, hPhrase, hNest, h⟩ := hItem.bind_eq_ok h
    obtain ⟨last, s₄, hClose, hLastIs, h⟩ := closeEnclosure_bind_eq_ok h
    obtain ⟨rfl, rfl⟩ := spanFrom_eq_ok h
    have hMoves := hOpen.trans ((hPeek.trans hInner).trans hClose)
    refine ⟨first :: (ts ++ [last]), hMoves, ?_, ?_⟩
    · rw [hMoves.spanFrom (Span.startsOver_token first _)]
      exact .mk hFirstIs hPhrase hLastIs
    · rwa [hPeek.room, hOpen.room] at hNest
  complete := by
    intro s ts rest t hRoom hPhrase _
    cases hPhrase with
    | @mk first last ts inner hFirstIs hPhrase hLastIs =>
      rw [listTypeOf]
      refine Accepts.openEnclosure hFirstIs ?_
      intro s₁ hOpen
      have hMore : isEnd (nextKind (ts ++ [last] ++ rest)) = false := by
        obtain ⟨u, us, rfl, hu⟩ := type_startsWith hPhrase
        rcases hu with hu | hu
        · exact hu.isEnd_eq_false
        · simp [hu, isEnd]
      refine Accepts.refuseEnd hMore ?_
      intro s₂ hPeek
      have hStop : NotNext [.bang] (last :: rest) := by
        intro q hq
        rw [nextIs, nextKind_cons, hLastIs, List.mem_singleton.mp hq]
        rfl
      refine (hItem.complete (by rwa [hPeek.room, hOpen.room]) hPhrase hStop).bind (Nat.le_refl _) ?_
      intro s₃ hInner
      refine Accepts.closeEnclosure hLastIs ?_
      intro s₄ hClose
      have hMoves := hOpen.trans ((hPeek.trans hInner).trans hClose)
      exact .spanFrom (hMoves.spanFrom (Span.startsOver_token first _))

theorem implements_nullableTypeOf :
    Implements room (nullableTypeOf item) (NullablePhrase TypePhrase) [] NullableType.nesting where
  sound := by
    intro s s' t h
    rw [nullableTypeOf] at h
    obtain ⟨s₁, hPeek, h⟩ := (peekIs_peeks .bracketOpen s).bind_eq_ok h
    split at h
    · exact (implements_listTypeOf hItem).branch_sound hPeek h .list fun _ => rfl
    · exact implements_namedType.branch_sound hPeek h .named fun _ => rfl
  complete := by
    intro s ts rest t hRoom hPhrase hStop
    rw [nullableTypeOf]
    refine Accepts.peek (peekIs_peeks .bracketOpen s) ?_
    intro s₁ hPeek
    have hRoom₁ : s₁.room ≤ room := hPeek.room ▸ hRoom
    cases hPhrase with
    | named hPhrase =>
      have hFirst : nextIs .bracketOpen (ts ++ rest) = false := by
        obtain ⟨u, us, rfl, hu⟩ := namedType_startsWith hPhrase
        exact nextIs_cons_eq_false (hu.ne_punctuator _)
      rw [hFirst]
      exact implements_namedType.branch_complete s₁.room_le hPhrase hStop rfl
    | list hPhrase =>
      have hFirst : nextIs .bracketOpen (ts ++ rest) = true := by
        obtain ⟨hIs, -, -⟩ := hPhrase
        exact nextIs_cons_iff.mpr hIs
      rw [hFirst]
      exact (implements_listTypeOf hItem).branch_complete hRoom₁ hPhrase hStop rfl

omit hItem in
theorem type_of_nullable {ts : List Token} {t : NullableType} (h : NullablePhrase TypePhrase ts t) :
    TypePhrase ts (.ofNullable t) := by
  cases h with
  | named hPhrase => exact .named hPhrase
  | list hPhrase => exact .list hPhrase

theorem implements_typeReferenceOf :
    Implements room (typeReferenceOf item) TypePhrase [.bang] TypeReference.inside where
  sound := by
    intro s s' t h
    rw [typeReferenceOf] at h
    obtain ⟨ts, inner, s₁, hInner, hPhrase, hNest, h⟩ := (implements_nullableTypeOf hItem).bind_eq_ok h
    obtain ⟨s₂, hPeek, h⟩ := (peekIs_peeks .bang s₁).bind_eq_ok h
    split at h
    · obtain ⟨t, s₃, hFinish, h⟩ := bind_eq_ok h
      obtain ⟨bang, hMoves, hIs, rfl⟩ :=
        finishNonNull_eq_ok hFinish (hInner.trans hPeek) ((nullable_startsOver hPhrase).append [])
      cases h
      rw [List.append_nil]
      exact ⟨ts ++ [bang], hInner.trans (hPeek.trans hMoves), .nonNull (.mk hPhrase hIs), hNest⟩
    · cases h
      refine ⟨ts, ?_, type_of_nullable hPhrase, by rwa [ofNullable_inside]⟩
      simpa using hInner.trans hPeek
  complete := by
    intro s ts rest t hRoom hPhrase hStop
    have hPlain : ∀ inner, NullablePhrase TypePhrase ts inner →
        Accepts (typeReferenceOf item) s ts rest (.ofNullable inner)
          (TypeReference.ofNullable inner).inside := by
      intro inner hInner
      rw [typeReferenceOf]
      refine ((implements_nullableTypeOf hItem).complete hRoom hInner (notNext_nil _)).bind_last
        (Nat.le_of_eq (ofNullable_inside inner).symm) ?_
      intro s₁ _
      refine Accepts.peek (peekIs_peeks .bang s₁) ?_
      intro s₂ _
      rw [List.nil_append, hStop .bang (.head _)]
      exact .pure _ _ _ _
    cases hPhrase with
    | named hPhrase => exact hPlain (.named _) (.named hPhrase)
    | list hPhrase => exact hPlain (.list _) (.list hPhrase)
    | nonNull hPhrase =>
      obtain ⟨hInner, hIs⟩ := hPhrase
      rw [typeReferenceOf]
      refine ((implements_nullableTypeOf hItem).complete hRoom hInner (notNext_nil _)).bind
        (Nat.le_refl _) ?_
      intro s₁ hMoves
      refine Accepts.peek (peekIs_peeks .bang s₁) ?_
      intro s₂ hPeek
      rw [List.singleton_append, nextIs_cons_iff.mpr hIs, if_pos rfl]
      have hSpan := nullable_startsOver hInner
      refine (Accepts.finishNonNull hIs (by simpa using hMoves.trans hPeek) hSpan).bind_last
        (Nat.zero_le _) ?_
      intro s₃ _
      exact .pure _ _ _ _

end

theorem implements_typeReferenceWithin (room : Nat) :
    Implements room (typeReferenceWithin room) TypePhrase [.bang] TypeReference.nesting := by
  induction room with
  | zero => exact implements_tooDeep fun t => Nat.succ_pos _
  | succ room ih => exact (implements_typeReferenceOf ih).nested

theorem implements_typeReference :
    Implements maxDepth typeReference TypePhrase [.bang] TypeReference.nesting :=
  implements_typeReferenceWithin maxDepth

theorem implements_listType :
    Implements maxDepth listType (ListTypePhrase TypePhrase) [] ListType.nesting :=
  implements_listTypeOf implements_typeReference

theorem implements_nonNullType :
    Implements maxDepth nonNullType (NonNullPhrase TypePhrase) [] NonNullType.nesting := by
  have hFlat : Implements maxDepth (do finishNonNull (← nullableTypeOf typeReference))
      (NonNullPhrase TypePhrase) [] NonNullType.inside := by
    refine ⟨?_, ?_⟩
    · intro s s' t h
      obtain ⟨ts, inner, s₁, hMoves, hPhrase, hNest, h⟩ :=
        (implements_nullableTypeOf implements_typeReference).bind_eq_ok h
      obtain ⟨bang, hBang, hIs, rfl⟩ := finishNonNull_eq_ok h hMoves (nullable_startsOver hPhrase)
      exact ⟨ts ++ [bang], hMoves.trans hBang, .mk hPhrase hIs, hNest⟩
    · rintro s _ rest _ hRoom ⟨hPhrase, hIs⟩ -
      refine ((implements_nullableTypeOf implements_typeReference).complete hRoom hPhrase
        (notNext_nil _)).bind (Nat.le_refl _) ?_
      intro s₁ hMoves
      exact (Accepts.finishNonNull hIs hMoves (nullable_startsOver hPhrase)).mono (Nat.zero_le _)
  exact hFlat.nested.anti (Nat.le_succ _)

end GraphQLSyntax.Parser
