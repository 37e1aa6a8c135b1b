import GraphQLSyntax.Parser.Value
import GraphQLSyntax.Proofs.Parsing.Enclosure

/-!
# Parsers of names and values
-/

set_option autoImplicit false

namespace GraphQLSyntax

/-- Whether a value may refer to variables. -/
def ValueContext.references : ValueContext → Bool
  | .argument => true
  | .constant | .variableDefault => false

/-! ## First tokens -/

section

variable {ts : List Token}

theorem VariablePhrase.first {v : Variable} (h : VariablePhrase ts v) (rest : List Token) :
    nextKind (ts ++ rest) = some (.punctuator .dollar) := by
  obtain ⟨hIs, -⟩ := h
  rw [List.cons_append, nextKind_cons, hIs]

theorem IntPhrase.first {v : IntValue} (h : IntPhrase ts v) (rest : List Token) :
    ∃ raw, nextKind (ts ++ rest) = some (.int raw) := by
  obtain ⟨hKind⟩ := h
  exact ⟨_, congrArg some hKind⟩

theorem FloatPhrase.first {v : FloatValue} (h : FloatPhrase ts v) (rest : List Token) :
    ∃ raw, nextKind (ts ++ rest) = some (.float raw) := by
  obtain ⟨hKind⟩ := h
  exact ⟨_, congrArg some hKind⟩

theorem StringPhrase.first {v : StringValue} (h : StringPhrase ts v) (rest : List Token) :
    ∃ raw, nextKind (ts ++ rest) = some (.string raw) := by
  obtain ⟨hKind⟩ := h
  exact ⟨_, congrArg some hKind⟩

theorem ListPhrase.first {item : Production Value} {v : ListValue} (h : ListPhrase item ts v)
    (rest : List Token) : nextKind (ts ++ rest) = some (.punctuator .bracketOpen) := by
  obtain ⟨⟨hIs, -, -⟩⟩ := h
  rw [List.cons_append, nextKind_cons, hIs]

theorem ObjectPhrase.first {item : Production Value} {v : ObjectValue} (h : ObjectPhrase item ts v)
    (rest : List Token) : nextKind (ts ++ rest) = some (.punctuator .braceOpen) := by
  obtain ⟨⟨hIs, -, -⟩⟩ := h
  rw [List.cons_append, nextKind_cons, hIs]

end

namespace Parser

variable {room : Nat}

/-! ## Names -/

def isNameKind (k : TokenKind) : Prop := k.nameText?.isSome = true

theorem readable_of_isNameKind {k : TokenKind} (h : isNameKind k) : k.Readable := by
  cases k with
  | name | boolean | null => trivial
  | _ => cases h

theorem isNameKind.ne_punctuator {k : TokenKind} (h : isNameKind k) (q : Punctuator) :
    k ≠ .punctuator q := by
  rintro rfl
  cases h

theorem isNameKind.isEnd_eq_false {k : TokenKind} (h : isNameKind k) : isEnd (some k) = false := by
  cases k with
  | name | boolean | null => rfl
  | _ => cases h

theorem name_startsWith : StartsWith NamePhrase isNameKind := by
  rintro _ _ ⟨hText⟩
  exact ⟨_, [], rfl, by rw [isNameKind, hText]; rfl⟩

theorem name_startsOver {ts : List Token} {n : Name} (h : NamePhrase ts n) : n.span.StartsOver ts := by
  cases h
  exact Span.startsOver_token _ []

theorem implements_name : Implements maxDepth name NamePhrase [] fun _ => 0 where
  sound := by
    intro s s' n h
    rw [name] at h
    obtain ⟨s₁, hPeek, h⟩ := (peekKind_peeks s).bind_eq_ok h
    cases hText : (nextKind s.rest).bind TokenKind.nameText? with
    | some text =>
      rw [hText] at h
      obtain ⟨t, s₂, hNext, h⟩ := bind_eq_ok h
      cases h
      obtain ⟨hRest, hMoves⟩ := next_eq_ok hNext
      rw [← hPeek.nextKind_eq, hRest, nextKind_cons, Option.bind_some] at hText
      have hReadable : t.kind.Readable := readable_of_isNameKind (by rw [isNameKind, hText]; rfl)
      exact ⟨[t], hPeek.trans (hMoves hReadable), .mk hText, Nat.zero_le _⟩
    | none =>
      rw [hText] at h
      exact absurd h (unexpected_ne_ok _ _ _ _)
  complete := by
    rintro s _ rest _ _ ⟨hText⟩ -
    rw [name]
    refine Accepts.peek (a := nextKind) (peekKind_peeks s) ?_
    intro s₁ _
    rw [List.singleton_append, nextKind_cons, Option.bind_some, hText]
    refine Accepts.next ?_
    intro s₂ _
    exact .pure _ _ _ _

theorem implements_reference : Implements maxDepth reference VariablePhrase [] fun _ => 0 where
  sound := by
    intro s s' v h
    rw [reference] at h
    obtain ⟨dollar, s₁, hDollar, hIs, h⟩ := expect_bind_eq_ok h
    obtain ⟨ts, n, s₂, hName, hPhrase, -, h⟩ := implements_name.bind_eq_ok h
    obtain ⟨rfl, rfl⟩ := spanFrom_eq_ok h
    have hMoves := hDollar.trans hName
    refine ⟨dollar :: ts, hMoves, ?_, Nat.zero_le _⟩
    rw [hMoves.spanFrom (Span.startsOver_token dollar _)]
    exact .mk hIs hPhrase
  complete := by
    rintro s _ rest _ hRoom ⟨hIs, hPhrase⟩ -
    rw [reference]
    refine Accepts.expect hIs ?_
    intro s₁ hDollar
    refine (implements_name.complete (hDollar.room ▸ hRoom) hPhrase (notNext_nil _)).bind_last
      (Nat.le_refl _) ?_
    intro s₂ hName
    exact .spanFrom ((hDollar.trans hName).spanFrom (Span.startsOver_token _ _))

/-! ## Literals -/

/-- A token is looked at only after it is consumed. -/
theorem next_bind_eq_ok {β : Type} {f : Token → Parser β} {s s' : ParserState} {b : β}
    (h : (next >>= f) s = .ok b s') :
    ∃ t s₁, (t.kind.Readable → Moves s [t] s₁) ∧ f t s₁ = .ok b s' := by
  obtain ⟨t, s₁, hNext, h⟩ := bind_eq_ok h
  exact ⟨t, s₁, (next_eq_ok hNext).2, h⟩

theorem intLiteral_of_readInt64 {raw : String} {v : Int} (h : readInt64 raw.toList = .ok v) :
    intLiteral raw = v := by
  have hNatural : ∀ {cs : List Char} {n : Nat}, natural? cs = some n → digitsValue cs = n := by
    intro cs n hn
    unfold natural? at hn
    split at hn
    · exact Option.some.inj hn
    · cases hn
  unfold readInt64 at h
  unfold intLiteral
  generalize raw.toList = text at h ⊢
  split at h
  · cases h
  · rename_i c cs
    split at h
    · rename_i hMinus
      subst hMinus
      split at h
      · cases h
      · rename_i n hn
        split at h <;> cases h
        simp [splitSign, hNatural hn]
    · rename_i hMinus
      split at h
      · cases h
      · rename_i n hn
        split at h <;> cases h
        have hValue := hNatural hn
        split at hValue
        · rename_i hPlus
          subst hPlus
          simp [splitSign, hValue]
        · rename_i hPlus
          have hSplit : splitSign (c :: cs) = (false, c :: cs) := by
            unfold splitSign
            split <;> simp_all
          simp [hSplit, hValue]

theorem implements_intValue : Implements maxDepth intValue IntPhrase [] fun _ => 0 where
  sound := by
    intro s s' v h
    rw [intValue] at h
    obtain ⟨t, s₁, hMoves, h⟩ := next_bind_eq_ok h
    cases hKind : t.kind with
    | int raw =>
      simp only [hKind] at h hMoves
      cases hRead : readInt64 raw.toList with
      | ok value =>
        simp only [hRead] at h
        cases h
        rw [← intLiteral_of_readInt64 hRead]
        exact ⟨[t], hMoves ⟨value, hRead⟩, .mk hKind, Nat.zero_le _⟩
      | error fault =>
        simp only [hRead] at h
        cases h
    | _ =>
      simp only [hKind] at h
      cases h
  complete := by
    rintro s _ rest _ _ ⟨hKind⟩ - hRest hReadable
    obtain ⟨v, hRead⟩ : ∃ v, readInt64 _ = .ok v := by
      have ht := hReadable _ (.head _)
      rwa [hKind] at ht
    refine Accepts.next (n := 0) ?_ hRest hReadable
    intro s₁ _
    simp only [hKind, hRead, intLiteral_of_readInt64 hRead]
    exact .pure _ _ _ _

theorem implements_floatValue : Implements maxDepth floatValue FloatPhrase [] fun _ => 0 where
  sound := by
    intro s s' v h
    rw [floatValue] at h
    obtain ⟨t, s₁, hMoves, h⟩ := next_bind_eq_ok h
    cases hKind : t.kind with
    | float raw =>
      simp only [hKind] at h hMoves
      cases hRead : (Binary64.ofText? raw.toList).filter Binary64.isFinite with
      | some x =>
        simp only [hRead] at h
        cases h
        obtain ⟨hText, hFinite⟩ := Option.filter_eq_some_iff.mp hRead
        have hLiteral : floatLiteral raw = x := by rw [floatLiteral, hText, Option.getD_some]
        rw [← hLiteral]
        exact ⟨[t], hMoves ⟨x, hText, hFinite⟩, .mk hKind, Nat.zero_le _⟩
      | none =>
        simp only [hRead] at h
        cases h
    | _ =>
      simp only [hKind] at h
      cases h
  complete := by
    rintro s _ rest _ _ (@⟨t, raw, hKind⟩) - hRest hReadable
    obtain ⟨x, hText, hFinite⟩ : ∃ x, Binary64.ofText? raw.toList = some x ∧ x.isFinite = true := by
      have ht := hReadable t (.head _)
      rwa [hKind] at ht
    have hRead := Option.filter_eq_some_iff.mpr ⟨hText, hFinite⟩
    have hLiteral : floatLiteral raw = x := by rw [floatLiteral, hText, Option.getD_some]
    refine Accepts.next (n := 0) ?_ hRest hReadable
    intro s₁ _
    simp only [hKind, hRead, hLiteral]
    exact .pure _ _ _ _

theorem implements_stringValue : Implements maxDepth stringValue StringPhrase [] fun _ => 0 where
  sound := by
    intro s s' v h
    rw [stringValue] at h
    obtain ⟨t, s₁, hMoves, h⟩ := next_bind_eq_ok h
    cases hKind : t.kind with
    | string raw =>
      simp only [hKind] at h hMoves
      cases hRead : decodeStringLiteral raw with
      | ok value =>
        simp only [hRead] at h
        cases h
        have hLiteral : stringLiteral raw = value := by rw [stringLiteral, hRead]; rfl
        rw [← hLiteral]
        exact ⟨[t], hMoves ⟨value, hRead⟩, .mk hKind, Nat.zero_le _⟩
      | error fault =>
        simp only [hRead] at h
        cases h
    | _ =>
      simp only [hKind] at h
      cases h
  complete := by
    rintro s _ rest _ _ ⟨hKind⟩ - hRest hReadable
    obtain ⟨v, hRead⟩ : ∃ v, decodeStringLiteral _ = .ok v := by
      have ht := hReadable _ (.head _)
      rwa [hKind] at ht
    refine Accepts.next (n := 0) ?_ hRest hReadable
    intro s₁ _
    simp only [hKind, hRead, stringLiteral]
    exact .pure _ _ _ _

theorem implements_booleanNullOrEnum :
    Implements maxDepth booleanNullOrEnum WordPhrase [] fun _ => 0 where
  sound := by
    intro s s' v h
    rw [booleanNullOrEnum] at h
    obtain ⟨t, s₁, hMoves, h⟩ := next_bind_eq_ok h
    cases hKind : t.kind with
    | boolean b =>
      simp only [hKind] at h hMoves
      cases h
      exact ⟨[t], hMoves trivial, .boolean hKind, Nat.zero_le _⟩
    | null =>
      simp only [hKind] at h hMoves
      cases h
      exact ⟨[t], hMoves trivial, .null hKind, Nat.zero_le _⟩
    | name text =>
      simp only [hKind] at h hMoves
      cases h
      exact ⟨[t], hMoves trivial, .enum hKind, Nat.zero_le _⟩
    | _ =>
      simp only [hKind] at h
      cases h
  complete := by
    intro s ts rest v _ hPhrase _
    rw [booleanNullOrEnum]
    cases hPhrase with
    | boolean hKind | null hKind | enum hKind =>
      refine Accepts.next ?_
      intro s₁ _
      simp only [hKind]
      exact .pure _ _ _ _

/-! ## Values -/

section

variable {item : Parser Value} {D : Production Value}

theorem implements_listValueOf (hItem : Implements room item D [] Value.nesting)
    (hFirst : StartsWith D fun k => k ≠ .punctuator .bracketClose ∧ k ≠ .endOfInput) :
    Implements room (listValueOf item) (ListPhrase D) [] ListValue.nesting := by
  have hEncloses : Encloses .listValue [] fun k => k ≠ .punctuator .bracketClose ∧ k ≠ .endOfInput :=
    ⟨fun h => h.1 rfl, fun h => h.2 rfl, by simp⟩
  change Implements room (do return (fun r => ListValue.mk r.1 r.2) (← enclosed _ _)) _ _ _
  refine (implements_enclosed hItem hFirst hEncloses).map _ ?_ ?_
  · intro ts v
    constructor
    · rintro ⟨hPhrase⟩
      exact ⟨(_, _), ⟨hPhrase, rfl⟩, rfl⟩
    · rintro ⟨⟨vs, span⟩, ⟨hPhrase, hSpan : span = spanOver ts⟩, rfl⟩
      subst hSpan
      exact .mk hPhrase
  · rintro ⟨vs, span⟩
    exact Value.deepestOf_eq vs

theorem objectField_startsWith : StartsWith (ObjectFieldPhrase D) isNameKind := by
  rintro _ _ ⟨hName, -, -⟩
  obtain ⟨t, us, rfl, ht⟩ := name_startsWith hName
  exact ⟨t, _, rfl, ht⟩

/-- A name, a colon and a value, in whatever they are put. -/
theorem implements_labelled {β : Type} {E : Production β} {nest : β → Nat} (make : Name → Value → Span → β)
    (hItem : Implements room item D [] Value.nesting)
    (hPhrase : ∀ ts b, E ts b ↔ ∃ us colon vs n v, ts = us ++ colon :: vs ∧ NamePhrase us n ∧
      colon.Is .colon ∧ D vs v ∧ b = make n v (spanOver ts))
    (hNest : ∀ n v span, nest (make n v span) = v.nesting) :
    Implements room (do
      let name ← name
      let _ ← expect .colon
      let value ← item
      return make name value (← spanFrom name.span)) E [] nest where
  sound := by
    intro s s' b h
    obtain ⟨us, n, s₁, hName, hNamePhrase, -, h⟩ := implements_name.bind_eq_ok h
    obtain ⟨colon, s₂, hColon, hIs, h⟩ := expect_bind_eq_ok h
    obtain ⟨vs, v, s₃, hValue, hValuePhrase, hRoom, h⟩ := hItem.bind_eq_ok h
    obtain ⟨rfl, rfl⟩ := spanFrom_eq_ok h
    have hMoves := hName.trans (hColon.trans hValue)
    refine ⟨us ++ colon :: vs, hMoves, ?_, ?_⟩
    · rw [hMoves.spanFrom ((name_startsOver hNamePhrase).append _)]
      exact (hPhrase _ _).mpr ⟨us, colon, vs, n, v, rfl, hNamePhrase, hIs, hValuePhrase, rfl⟩
    · rwa [hNest, ← hName.room, ← hColon.room]
  complete := by
    intro s ts rest b hRoom hE hStop
    obtain ⟨us, colon, vs, n, v, rfl, hNamePhrase, hIs, hValuePhrase, rfl⟩ := (hPhrase _ _).mp hE
    refine (implements_name.complete s.room_le hNamePhrase (notNext_nil _)).bind (Nat.zero_le _) ?_
    intro s₁ hName
    refine Accepts.expect hIs ?_
    intro s₂ hColon
    refine (hItem.complete (by rwa [hColon.room, hName.room]) hValuePhrase hStop).bind_last
      (Nat.le_of_eq (hNest _ _ _).symm) ?_
    intro s₃ hValue
    have hMoves := hName.trans (hColon.trans hValue)
    exact .spanFrom (hMoves.spanFrom ((name_startsOver hNamePhrase).append _))

theorem implements_objectFieldOf (hItem : Implements room item D [] Value.nesting) :
    Implements room (objectFieldOf item) (ObjectFieldPhrase D) [] ObjectField.nesting := by
  refine implements_labelled ObjectField.mk hItem ?_ fun _ _ _ => rfl
  intro ts f
  constructor
  · rintro ⟨hName, hIs, hPhrase⟩
    exact ⟨_, _, _, _, _, rfl, hName, hIs, hPhrase, rfl⟩
  · rintro ⟨us, colon, vs, n, v, rfl, hName, hIs, hPhrase, rfl⟩
    exact .mk hName hIs hPhrase

theorem implements_objectValueOf (hItem : Implements room item D [] Value.nesting) :
    Implements room (objectValueOf item) (ObjectPhrase D) [] ObjectValue.nesting := by
  have hEncloses : Encloses .objectValue [] isNameKind :=
    ⟨fun h => h.ne_punctuator _ rfl, (fun h => nomatch h), (fun q hq => nomatch hq)⟩
  change Implements room (do return (fun r => ObjectValue.mk r.1 r.2) (← enclosed _ _)) _ _ _
  refine (implements_enclosed (implements_objectFieldOf hItem) objectField_startsWith hEncloses).map
    _ ?_ ?_
  · intro ts v
    constructor
    · rintro ⟨hPhrase⟩
      exact ⟨(_, _), ⟨hPhrase, rfl⟩, rfl⟩
    · rintro ⟨⟨fs, span⟩, ⟨hPhrase, hSpan : span = spanOver ts⟩, rfl⟩
      subst hSpan
      exact .mk hPhrase
  · rintro ⟨fs, span⟩
    exact ObjectField.deepestOf_eq fs

end

theorem value_startsWith (references : Bool) : StartsWith (ValuePhrase references)
    fun k => k ≠ .punctuator .bracketClose ∧ k ≠ .endOfInput := by
  intro ts v hPhrase
  cases hPhrase with
  | reference _ hPhrase =>
    obtain ⟨hIs, -⟩ := hPhrase
    exact ⟨_, _, rfl, by rw [hIs]; simp⟩
  | int hPhrase | float hPhrase | string hPhrase =>
    obtain ⟨hKind⟩ := hPhrase
    exact ⟨_, _, rfl, by rw [hKind]; simp⟩
  | word hPhrase =>
    cases hPhrase with
    | boolean hKind | null hKind | enum hKind => exact ⟨_, _, rfl, by rw [hKind]; simp⟩
  | list hPhrase =>
    obtain ⟨⟨hIs, -, -⟩⟩ := hPhrase
    exact ⟨_, _, rfl, by rw [hIs]; simp⟩
  | object hPhrase =>
    obtain ⟨⟨hIs, -, -⟩⟩ := hPhrase
    exact ⟨_, _, rfl, by rw [hIs]; simp⟩

section

variable {context : ValueContext} {item : Parser Value}

theorem valueOf_sound (hItem : Implements room item (ValuePhrase context.references) [] Value.nesting)
    {s s' : ParserState} {v : Value} (h : valueOf context item s = .ok v s') :
    ∃ ts, Moves s ts s' ∧ ValuePhrase context.references ts v ∧ v.inside ≤ s.room := by
  rw [valueOf] at h
  obtain ⟨s₁, hPeek, h⟩ := (peekKind_peeks s).bind_eq_ok h
  cases hKind : nextKind s.rest with
  | none =>
    simp only [hKind] at h
    exact absurd h (unexpected_ne_ok _ _ _ _)
  | some k =>
    cases k with
    | int raw =>
      simp only [hKind] at h
      exact implements_intValue.branch_sound hPeek h .int fun _ => rfl
    | float raw =>
      simp only [hKind] at h
      exact implements_floatValue.branch_sound hPeek h .float fun _ => rfl
    | string raw =>
      simp only [hKind] at h
      exact implements_stringValue.branch_sound hPeek h .string fun _ => rfl
    | boolean b | null | name text =>
      simp only [hKind] at h
      obtain ⟨ts, hMoves, hPhrase, -⟩ := implements_booleanNullOrEnum.sound h
      refine ⟨ts, hPeek.trans hMoves, .word hPhrase, ?_⟩
      cases hPhrase <;> exact Nat.zero_le _
    | punctuator q =>
      cases q with
      | dollar =>
        cases context with
        | argument =>
          simp only [hKind, ValueContext.constantName?] at h
          exact implements_reference.branch_sound hPeek h (.reference rfl) fun _ => rfl
        | constant | variableDefault =>
          simp only [hKind, ValueContext.constantName?] at h
          obtain ⟨span, s₂, -, h⟩ := bind_eq_ok h
          cases h
      | bracketOpen =>
        simp only [hKind] at h
        exact (implements_listValueOf hItem (value_startsWith _)).branch_sound hPeek h .list fun _ => rfl
      | braceOpen =>
        simp only [hKind] at h
        exact (implements_objectValueOf hItem).branch_sound hPeek h .object fun _ => rfl
      | _ =>
        simp only [hKind] at h
        exact absurd h (unexpected_ne_ok _ _ _ _)
    | endOfInput | error message notes =>
      simp only [hKind] at h
      exact absurd h (unexpected_ne_ok _ _ _ _)

theorem valueOf_complete (hItem : Implements room item (ValuePhrase context.references) [] Value.nesting)
    {s : ParserState} {ts rest : List Token} {v : Value} (hRoom : s.room ≤ room)
    (hPhrase : ValuePhrase context.references ts v) :
    Accepts (valueOf context item) s ts rest v v.inside := by
  have hStop := notNext_nil rest
  rw [valueOf]
  refine Accepts.peek (a := nextKind) (peekKind_peeks s) ?_
  intro s₁ hPeek
  have hRoom₁ : s₁.room ≤ room := hPeek.room ▸ hRoom
  cases hPhrase with
  | reference hReferences hPhrase =>
    have hContext : context.constantName? = none := by
      cases context with
      | argument => rfl
      | constant | variableDefault => cases hReferences
    simp only [hPhrase.first rest, hContext]
    exact implements_reference.branch_complete s₁.room_le hPhrase hStop rfl
  | int hPhrase =>
    obtain ⟨raw, hFirst⟩ := hPhrase.first rest
    simp only [hFirst]
    exact implements_intValue.branch_complete s₁.room_le hPhrase hStop rfl
  | float hPhrase =>
    obtain ⟨raw, hFirst⟩ := hPhrase.first rest
    simp only [hFirst]
    exact implements_floatValue.branch_complete s₁.room_le hPhrase hStop rfl
  | string hPhrase =>
    obtain ⟨raw, hFirst⟩ := hPhrase.first rest
    simp only [hFirst]
    exact implements_stringValue.branch_complete s₁.room_le hPhrase hStop rfl
  | word hPhrase =>
    have hWord := implements_booleanNullOrEnum.complete s₁.room_le hPhrase hStop
    cases hPhrase with
    | boolean hKind | null hKind | enum hKind =>
      simp only [List.singleton_append, nextKind_cons, hKind]
      exact hWord.mono (Nat.zero_le _)
  | list hPhrase =>
    simp only [hPhrase.first rest]
    exact (implements_listValueOf hItem (value_startsWith _)).branch_complete hRoom₁ hPhrase hStop rfl
  | object hPhrase =>
    simp only [hPhrase.first rest]
    exact (implements_objectValueOf hItem).branch_complete hRoom₁ hPhrase hStop rfl

theorem implements_valueOf (hItem : Implements room item (ValuePhrase context.references) [] Value.nesting) :
    Implements room (valueOf context item) (ValuePhrase context.references) [] Value.inside where
  sound h := valueOf_sound hItem h
  complete hRoom hPhrase _ := valueOf_complete hItem hRoom hPhrase

end

theorem implements_valueWithin (context : ValueContext) (room : Nat) :
    Implements room (valueWithin context room) (ValuePhrase context.references) [] Value.nesting := by
  induction room with
  | zero => exact implements_tooDeep fun v => Nat.succ_pos _
  | succ room ih => exact (implements_valueOf ih).nested

theorem implements_value (context : ValueContext) :
    Implements maxDepth (value context) (ValuePhrase context.references) [] Value.nesting :=
  implements_valueWithin context maxDepth

theorem implements_listValue :
    Implements maxDepth listValue (ListPhrase (ValuePhrase true)) [] ListValue.nesting :=
  implements_listValueOf (implements_value .argument) (value_startsWith true)

theorem implements_objectValue :
    Implements maxDepth objectValue (ObjectPhrase (ValuePhrase true)) [] ObjectValue.nesting :=
  implements_objectValueOf (implements_value .argument)

end Parser

end GraphQLSyntax
