import GraphQLSyntax.Proofs.Faults.Enclosure

/-!
# Values
-/

set_option autoImplicit false

namespace GraphQLSyntax.Parser

variable {room : Nat}

/-! ## Variables and literals -/

theorem phrases_variable :
    phrases VariablePhrase (fun _ => 0) = sign .dollar * tokenOf isNameKind := by
  rw [← phrases_name]
  ext limit ts
  constructor
  · rintro ⟨_, ⟨hIs, hName⟩, -⟩
    exact mem_tokenOf_mul.mpr ⟨_, _, rfl, hIs, _, hName, zero_le⟩
  · intro hts
    obtain ⟨dollar, us, rfl, hIs, n, hName, -⟩ := mem_tokenOf_mul.mp hts
    exact ⟨_, .mk hIs hName, zero_le⟩

theorem completable_variable : Completable (phrases VariablePhrase fun _ => 0) := by
  rw [phrases_variable]
  exact (completable_sign _).mul completable_name

theorem foresees_reference : Foresees maxDepth reference (phrases VariablePhrase fun _ => 0) [] := by
  intro s K hRoom hCompletable hK
  rw [phrases_variable, mul_assoc] at *
  rw [reference]
  refine Foretold.expect rfl (.refl s hCompletable) ?_
  intro dollar s₁ h₁
  refine foresees_name.bind h₁ hRoom (avoids_nil _) ?_
  intro n s₂ h₂
  exact .spanFrom h₂

def isIntKind (k : TokenKind) : Prop := ∃ raw, k = .int raw

def isFloatKind (k : TokenKind) : Prop := ∃ raw, k = .float raw

def isStringKind (k : TokenKind) : Prop := ∃ raw, k = .string raw

/-- The kinds of the tokens that are values by themselves and need no reading. -/
def isWordKind (k : TokenKind) : Prop :=
  (∃ b, k = .boolean b) ∨ k = .null ∨ ∃ text, k = .name text

theorem phrases_int : phrases IntPhrase (fun _ => 0) = tokenOf isIntKind := by
  refine phrases_token fun ts => ⟨?_, ?_⟩
  · rintro ⟨_, ⟨hKind⟩⟩
    exact ⟨_, rfl, _, hKind⟩
  · rintro ⟨t, rfl, raw, hKind⟩
    exact ⟨_, .mk hKind⟩

theorem phrases_float : phrases FloatPhrase (fun _ => 0) = tokenOf isFloatKind := by
  refine phrases_token fun ts => ⟨?_, ?_⟩
  · rintro ⟨_, ⟨hKind⟩⟩
    exact ⟨_, rfl, _, hKind⟩
  · rintro ⟨t, rfl, raw, hKind⟩
    exact ⟨_, .mk hKind⟩

theorem phrases_string : phrases StringPhrase (fun _ => 0) = tokenOf isStringKind := by
  refine phrases_token fun ts => ⟨?_, ?_⟩
  · rintro ⟨_, ⟨hKind⟩⟩
    exact ⟨_, rfl, _, hKind⟩
  · rintro ⟨t, rfl, raw, hKind⟩
    exact ⟨_, .mk hKind⟩

theorem phrases_word : phrases WordPhrase (fun _ => 0) = tokenOf isWordKind := by
  refine phrases_token fun ts => ⟨?_, ?_⟩
  · rintro ⟨_, hPhrase⟩
    cases hPhrase with
    | boolean hKind => exact ⟨_, rfl, .inl ⟨_, hKind⟩⟩
    | null hKind => exact ⟨_, rfl, .inr (.inl hKind)⟩
    | enum hKind => exact ⟨_, rfl, .inr (.inr ⟨_, hKind⟩)⟩
  · rintro ⟨t, rfl, ⟨b, hKind⟩ | hKind | ⟨text, hKind⟩⟩
    · exact ⟨_, .boolean hKind⟩
    · exact ⟨_, .null hKind⟩
    · exact ⟨_, .enum hKind⟩

theorem completable_int : Completable (phrases IntPhrase fun _ => 0) := by
  rw [phrases_int]
  exact completable_tokenOf (k := .int "0") ⟨_, rfl⟩ (IntText.plain .zero)

theorem completable_float : Completable (phrases FloatPhrase fun _ => 0) := by
  have hText : FloatText ("0.0" : String).toList :=
    @FloatText.fraction ['0'] ['.', '0'] (.plain .zero) (.mk (by simp) (by simp [AllDigits]))
  rw [phrases_float]
  exact completable_tokenOf (k := .float "0.0") ⟨_, rfl⟩ hText

theorem completable_string : Completable (phrases StringPhrase fun _ => 0) := by
  rw [phrases_string]
  exact completable_tokenOf (k := .string "\"\"") ⟨_, rfl⟩ (StringText.quoted .close)

theorem completable_word : Completable (phrases WordPhrase fun _ => 0) := by
  rw [phrases_word]
  exact completable_tokenOf (k := .null) (.inr (.inl rfl)) trivial

theorem foresees_intValue : Foresees maxDepth intValue (phrases IntPhrase fun _ => 0) [] := by
  intro s K hRoom hCompletable hK
  rw [phrases_int] at *
  rw [intValue]
  refine Foretold.literal (.refl s hCompletable) ?_ ?_ ?_ ?_ ?_
  · rintro k ⟨raw, rfl⟩
    rfl
  · rintro ⟨_, h⟩
    cases h
  · rintro t s₁ ⟨raw, hKind⟩ hReadable
    rw [hKind] at hReadable
    obtain ⟨v, hRead⟩ := hReadable
    simp only [hKind, hRead]
    exact ⟨_, rfl⟩
  · rintro t s₁ ⟨raw, hKind⟩ hReadable
    rw [hKind] at hReadable
    simp only [hKind]
    cases hRead : readInt64 raw.toList with
    | ok v => exact absurd ⟨v, hRead⟩ hReadable
    | error fault => exact ⟨_, rfl, .int hKind rfl rfl⟩
  · intro t s₁ hKind
    cases hToken : t.kind with
    | int raw => exact absurd ⟨raw, hToken⟩ hKind
    | _ => exact ⟨_, rfl⟩

theorem foresees_floatValue : Foresees maxDepth floatValue (phrases FloatPhrase fun _ => 0) [] := by
  intro s K hRoom hCompletable hK
  rw [phrases_float] at *
  rw [floatValue]
  refine Foretold.literal (.refl s hCompletable) ?_ ?_ ?_ ?_ ?_
  · rintro k ⟨raw, rfl⟩
    rfl
  · rintro ⟨_, h⟩
    cases h
  · rintro t s₁ ⟨raw, hKind⟩ hReadable
    rw [hKind] at hReadable
    obtain ⟨x, hText, hFinite⟩ := hReadable
    simp only [hKind, Option.filter_eq_some_iff.mpr ⟨hText, hFinite⟩]
    exact ⟨_, rfl⟩
  · rintro t s₁ ⟨raw, hKind⟩ hReadable
    rw [hKind] at hReadable
    simp only [hKind]
    cases hRead : (Binary64.ofText? raw.toList).filter Binary64.isFinite with
    | some x => exact absurd ⟨x, Option.filter_eq_some_iff.mp hRead⟩ hReadable
    | none => exact ⟨_, rfl, .float hKind rfl rfl⟩
  · intro t s₁ hKind
    cases hToken : t.kind with
    | float raw => exact absurd ⟨raw, hToken⟩ hKind
    | _ => exact ⟨_, rfl⟩

theorem foresees_stringValue : Foresees maxDepth stringValue (phrases StringPhrase fun _ => 0) [] := by
  intro s K hRoom hCompletable hK
  rw [phrases_string] at *
  rw [stringValue]
  refine Foretold.literal (.refl s hCompletable) ?_ ?_ ?_ ?_ ?_
  · rintro k ⟨raw, rfl⟩
    rfl
  · rintro ⟨_, h⟩
    cases h
  · rintro t s₁ ⟨raw, hKind⟩ hReadable
    rw [hKind] at hReadable
    obtain ⟨v, hRead⟩ := hReadable
    simp only [hKind, hRead]
    exact ⟨_, rfl⟩
  · rintro t s₁ ⟨raw, hKind⟩ hReadable
    rw [hKind] at hReadable
    simp only [hKind]
    cases hRead : decodeStringLiteral raw with
    | ok v => exact absurd ⟨v, hRead⟩ hReadable
    | error fault => exact ⟨_, rfl, .string hKind hRead rfl rfl⟩
  · intro t s₁ hKind
    cases hToken : t.kind with
    | string raw => exact absurd ⟨raw, hToken⟩ hKind
    | _ => exact ⟨_, rfl⟩

theorem foresees_booleanNullOrEnum :
    Foresees maxDepth booleanNullOrEnum (phrases WordPhrase fun _ => 0) [] := by
  intro s K hRoom hCompletable hK
  rw [phrases_word] at *
  rw [booleanNullOrEnum]
  refine Foretold.literal (.refl s hCompletable) ?_ ?_ ?_ ?_ ?_
  · rintro k (⟨b, rfl⟩ | rfl | ⟨text, rfl⟩) <;> rfl
  · rintro (⟨b, h⟩ | h | ⟨text, h⟩) <;> cases h
  · rintro t s₁ (⟨b, hKind⟩ | hKind | ⟨text, hKind⟩) _
    all_goals
      simp only [hKind]
      exact ⟨_, rfl⟩
  · rintro t s₁ (⟨b, hKind⟩ | hKind | ⟨text, hKind⟩) hReadable
    all_goals
      rw [hKind] at hReadable
      exact absurd trivial hReadable
  · intro t s₁ hKind
    cases hToken : t.kind with
    | boolean b => exact absurd (.inl ⟨b, hToken⟩) hKind
    | null => exact absurd (.inr (.inl hToken)) hKind
    | name text => exact absurd (.inr (.inr ⟨text, hToken⟩)) hKind
    | _ => exact ⟨_, rfl⟩

/-! ## Lists and objects -/

/-- The kinds of the tokens that a value starts with. -/
def isValueKind (references : Bool) : TokenKind → Prop
  | .punctuator .dollar => references = true
  | .punctuator .bracketOpen | .punctuator .braceOpen => True
  | .int _ | .float _ | .string _ | .boolean _ | .null | .name _ => True
  | _ => False

theorem isClosing_of_isValueKind {references : Bool} (k : TokenKind) (hk : isValueKind references k) :
    k.isClosing = false := by
  cases k with
  | punctuator p =>
    cases p with
    | dollar | bracketOpen | braceOpen => rfl
    | _ => exact hk.elim
  | _ => rfl

theorem starts_value (references : Bool) (nest : Value → Nat) :
    Starts (phrases (ValuePhrase references) nest) (isValueKind references) := by
  refine starts_phrases ?_ fun h => h
  intro ts v hPhrase
  cases hPhrase with
  | reference hReferences hPhrase =>
    obtain ⟨hIs, -⟩ := hPhrase
    exact ⟨_, _, rfl, by rw [hIs]; exact hReferences⟩
  | int hPhrase | float hPhrase | string hPhrase =>
    obtain ⟨hKind⟩ := hPhrase
    exact ⟨_, _, rfl, by rw [hKind]; trivial⟩
  | word hPhrase =>
    cases hPhrase with
    | boolean hKind | null hKind | enum hKind => exact ⟨_, _, rfl, by rw [hKind]; trivial⟩
  | list hPhrase | object hPhrase =>
    obtain ⟨⟨hIs, -, -⟩⟩ := hPhrase
    exact ⟨_, _, rfl, by rw [hIs]; trivial⟩

theorem completable_value (references : Bool) (nest : Value → Nat) :
    Completable (phrases (ValuePhrase references) nest) := by
  obtain ⟨ts, ⟨v, hPhrase, -⟩, hWell⟩ := completable_word
  exact ⟨ts, ⟨v, .word hPhrase, le_top⟩, hWell⟩

section

variable {item : Parser Value} {D : Production Value} {references : Bool}

theorem phrases_list : phrases (ListPhrase D) ListValue.nesting =
    sign .bracketOpen * (phrases (Repeated D) (deepest Value.nesting) * sign .bracketClose) := by
  rw [← phrases_enclosed]
  refine phrases_congr ?_
  intro ts n
  constructor
  · rintro ⟨_, ⟨hPhrase⟩, hNest⟩
    exact ⟨_, hPhrase, by rw [← Value.deepestOf_eq]; exact hNest⟩
  · rintro ⟨vs, hPhrase, hNest⟩
    exact ⟨_, .mk hPhrase, by rw [← hNest, ← Value.deepestOf_eq]; rfl⟩

theorem phrases_object : phrases (ObjectPhrase D) ObjectValue.nesting = sign .braceOpen *
    (phrases (Repeated (ObjectFieldPhrase D)) (deepest ObjectField.nesting) * sign .braceClose) := by
  rw [← phrases_enclosed]
  refine phrases_congr ?_
  intro ts n
  constructor
  · rintro ⟨_, ⟨hPhrase⟩, hNest⟩
    exact ⟨_, hPhrase, by rw [← ObjectField.deepestOf_eq]; exact hNest⟩
  · rintro ⟨fs, hPhrase, hNest⟩
    exact ⟨_, .mk hPhrase, by rw [← hNest, ← ObjectField.deepestOf_eq]; rfl⟩

theorem completable_list : Completable (phrases (ListPhrase D) ListValue.nesting) := by
  rw [phrases_list]
  exact (completable_sign _).mul (completable_repeated.mul (completable_sign _))

theorem completable_object : Completable (phrases (ObjectPhrase D) ObjectValue.nesting) := by
  rw [phrases_object]
  exact (completable_sign _).mul (completable_repeated.mul (completable_sign _))

/-- A name, a colon and a value, in whatever they are put. -/
theorem phrases_labelled {β : Type} {E : Production β} {nest : β → Nat}
    (hPhrase : ∀ ts m, (∃ b, E ts b ∧ nest b = m) ↔ ∃ us colon vs n v, ts = us ++ colon :: vs ∧
      NamePhrase us n ∧ colon.Is .colon ∧ D vs v ∧ Value.nesting v = m) :
    phrases E nest = tokenOf isNameKind * (sign .colon * phrases D Value.nesting) := by
  rw [← phrases_name]
  ext limit ts
  constructor
  · rintro ⟨b, hb, hNest⟩
    obtain ⟨us, colon, vs, n, v, rfl, hName, hIs, hv, hEq⟩ := (hPhrase ts _).mp ⟨b, hb, rfl⟩
    exact mem_mul.mpr ⟨us, ⟨n, hName, zero_le⟩, _, mem_tokenOf_mul.mpr
      ⟨colon, vs, rfl, hIs, v, hv, by rw [hEq]; exact hNest⟩, rfl⟩
  · intro hts
    obtain ⟨us, ⟨n, hName, -⟩, ws, hws, rfl⟩ := mem_mul.mp hts
    obtain ⟨colon, vs, rfl, hIs, v, hv, hNest⟩ := mem_tokenOf_mul.mp hws
    obtain ⟨b, hb, hEq⟩ := (hPhrase _ _).mpr ⟨us, colon, vs, n, v, rfl, hName, hIs, hv, rfl⟩
    exact ⟨b, hb, by rw [hEq]; exact hNest⟩

theorem phrases_objectField : phrases (ObjectFieldPhrase D) ObjectField.nesting =
    tokenOf isNameKind * (sign .colon * phrases D Value.nesting) := by
  refine phrases_labelled fun ts m => ⟨?_, ?_⟩
  · rintro ⟨_, ⟨hName, hIs, hValue⟩, hNest⟩
    exact ⟨_, _, _, _, _, rfl, hName, hIs, hValue, hNest⟩
  · rintro ⟨us, colon, vs, n, v, rfl, hName, hIs, hValue, hNest⟩
    exact ⟨_, .mk hName hIs hValue, hNest⟩

variable (hItem : Foresees room item (phrases D Value.nesting) [])

include hItem

theorem foresees_labelled {β : Type} (make : Name → Value → Span → β) :
    Foresees room (do
      let name ← name
      let _ ← expect .colon
      let value ← item
      return make name value (← spanFrom name.span))
      (tokenOf isNameKind * (sign .colon * phrases D Value.nesting)) [] := by
  intro s K hRoom hCompletable hK
  have h := Reached.refl s hCompletable
  rw [mul_assoc, mul_assoc] at h ⊢
  refine foresees_name.bind h s.room_le (avoids_nil _) ?_
  intro n s₁ h₁
  refine Foretold.expect rfl h₁ ?_
  intro colon s₂ h₂
  refine hItem.bind h₂ hRoom hK ?_
  intro v s₃ h₃
  exact .spanFrom h₃

variable (hCompletable : Completable (phrases D Value.nesting))

include hCompletable

theorem foresees_listValueOf (hStarts : Starts (phrases D Value.nesting) (isValueKind references)) :
    Foresees room (listValueOf item) (phrases (ListPhrase D) ListValue.nesting) [] := by
  have hEnclosed : Foresees room (enclosed .listValue item) _ [] :=
    foresees_enclosed hItem hCompletable hStarts isClosing_of_isValueKind id phrases_repeated
      (fun _ _ ⟨_, hp, _⟩ => nomatch hp) (List.not_mem_nil)
  rw [phrases_list]
  exact hEnclosed.map fun r => ListValue.mk r.1 r.2

theorem foresees_objectValueOf :
    Foresees room (objectValueOf item) (phrases (ObjectPhrase D) ObjectValue.nesting) [] := by
  have hField : Foresees room (objectFieldOf item)
      (phrases (ObjectFieldPhrase D) ObjectField.nesting) [] :=
    (foresees_labelled hItem ObjectField.mk).congr phrases_objectField
  have hEnclosed : Foresees room (enclosed .objectValue (objectFieldOf item)) _ [] :=
    foresees_enclosed hField
      (by rw [phrases_objectField]; exact completable_name.mul ((completable_sign _).mul hCompletable))
      (by rw [phrases_objectField]; exact starts_name _)
      (fun _ => isClosing_of_isNameKind) (fun h => nomatch h) phrases_repeated
      (fun _ _ ⟨_, hp, _⟩ => nomatch hp) (List.not_mem_nil)
  rw [phrases_object]
  exact hEnclosed.map fun r => ObjectValue.mk r.1 r.2

end

/-! ## Values -/

/-- The first token of a value tells what kind of value it is. -/
theorem value_of_front {references : Bool} {ts : List Token} {v : Value} {k : TokenKind}
    (h : ValuePhrase references ts v) (hFront : front ts = some k) :
    match k with
    | .punctuator .dollar => ∃ a, VariablePhrase ts a ∧ Value.reference a = v
    | .punctuator .bracketOpen => ∃ a, ListPhrase (ValuePhrase references) ts a ∧ Value.list a = v
    | .punctuator .braceOpen => ∃ a, ObjectPhrase (ValuePhrase references) ts a ∧ Value.object a = v
    | .int _ => ∃ a, IntPhrase ts a ∧ Value.int a = v
    | .float _ => ∃ a, FloatPhrase ts a ∧ Value.float a = v
    | .string _ => ∃ a, StringPhrase ts a ∧ Value.string a = v
    | _ => WordPhrase ts v := by
  have hNext := nextKind_of_front hFront
  rw [← List.append_nil ts] at hNext
  cases h with
  | reference hReferences hPhrase =>
    rw [hPhrase.first] at hNext
    cases hNext
    exact ⟨_, hPhrase, rfl⟩
  | int hPhrase =>
    obtain ⟨raw, hFirst⟩ := hPhrase.first []
    rw [hFirst] at hNext
    cases hNext
    exact ⟨_, hPhrase, rfl⟩
  | float hPhrase =>
    obtain ⟨raw, hFirst⟩ := hPhrase.first []
    rw [hFirst] at hNext
    cases hNext
    exact ⟨_, hPhrase, rfl⟩
  | string hPhrase =>
    obtain ⟨raw, hFirst⟩ := hPhrase.first []
    rw [hFirst] at hNext
    cases hNext
    exact ⟨_, hPhrase, rfl⟩
  | word hPhrase =>
    rw [List.append_nil] at hNext
    have hWord := hPhrase
    cases hPhrase with
    | boolean hKind | null hKind | enum hKind =>
      rw [nextKind_cons, hKind] at hNext
      cases hNext
      exact hWord
  | list hPhrase =>
    rw [hPhrase.first] at hNext
    cases hNext
    exact ⟨_, hPhrase, rfl⟩
  | object hPhrase =>
    rw [hPhrase.first] at hNext
    cases hNext
    exact ⟨_, hPhrase, rfl⟩

section

variable {context : ValueContext} {item : Parser Value}
  (hItem : Foresees room item (phrases (ValuePhrase context.references) Value.nesting) [])

include hItem

theorem foresees_valueOf : Foresees room (valueOf context item)
    (phrases (ValuePhrase context.references) Value.inside) [] := by
  intro s K hRoom hCompletable hK
  have hStarts := starts_value context.references Value.inside
  have hItemStarts := starts_value context.references Value.nesting
  have hItemCompletable := completable_value context.references Value.nesting
  rw [valueOf]
  refine Foretold.peek looks_peekKind (.refl s hCompletable) ?_
  intro s₁ h₁ hSame
  rw [← hSame]
  have hOther : (∀ k, front s₁.rest = some k → ¬ isValueKind context.references k) →
      Foretold s (phrases (ValuePhrase context.references) Value.inside * K) s.openers K
        (unexpected .value s₁ : EStateM.Result _ _ Value) := fun hNone =>
    h₁.unexpected (blocked_of_starts (hStarts.mul K) hNone isClosing_of_isValueKind) _
  cases hFront : front s₁.rest with
  | none =>
    have hNone := hOther fun k hk => by
      rw [hFront] at hk
      cases hk
    cases hNext : nextKind s₁.rest with
    | none => exact hNone
    | some k =>
      have hEnd := (isEnd_iff_front s₁.rest).mpr hFront
      rw [hNext, isEnd, beq_iff_eq] at hEnd
      rw [hEnd]
      exact hNone
  | some k =>
    rw [nextKind_of_front hFront]
    cases k with
    | int raw =>
      exact (foresees_intValue.call (h₁.alternative .int hFront completable_int hStarts
        (fun h => ⟨.int h, rfl⟩) fun h hNext => value_of_front h hNext) s.room_le hK).map _
    | float raw =>
      exact (foresees_floatValue.call (h₁.alternative .float hFront completable_float hStarts
        (fun h => ⟨.float h, rfl⟩) fun h hNext => value_of_front h hNext) s.room_le hK).map _
    | string raw =>
      exact (foresees_stringValue.call (h₁.alternative .string hFront completable_string hStarts
        (fun h => ⟨.string h, rfl⟩) fun h hNext => value_of_front h hNext) s.room_le hK).map _
    | boolean b | null | name text =>
      refine foresees_booleanNullOrEnum.call (h₁.alternative id hFront completable_word hStarts ?_ ?_)
        s.room_le hK
      · intro ts v h
        exact ⟨.word h, by cases h <;> rfl⟩
      · intro ts v h hNext
        exact ⟨v, value_of_front h hNext, rfl⟩
    | punctuator q =>
      cases q with
      | dollar =>
        cases context with
        | argument =>
          have hReferences : ValueContext.argument.references = true := rfl
          exact (foresees_reference.call (h₁.alternative .reference hFront completable_variable hStarts
            (fun h => ⟨.reference hReferences h, rfl⟩) fun h hNext => value_of_front h hNext)
            s.room_le hK).map _
        | constant | variableDefault =>
          refine h₁.refuseHere (fun span => ⟨_, span, .invalidSyntax, []⟩) hFront (fun _ _ => rfl)
            (fun _ => rfl) (fun _ => rfl) (blocked_of_starts (hStarts.mul K) ?_ isClosing_of_isValueKind)
          intro k hk
          rw [hFront] at hk
          cases hk
          exact Bool.false_ne_true
      | bracketOpen =>
        exact ((foresees_listValueOf hItem hItemCompletable hItemStarts).call
          (h₁.alternative .list hFront completable_list hStarts
          (fun h => ⟨.list h, rfl⟩) fun h hNext => value_of_front h hNext) hRoom hK).map _
      | braceOpen =>
        exact ((foresees_objectValueOf hItem hItemCompletable).call
          (h₁.alternative .object hFront completable_object hStarts
          (fun h => ⟨.object h, rfl⟩) fun h hNext => value_of_front h hNext) hRoom hK).map _
      | _ => exact hOther fun k hk => by rw [hFront] at hk; cases hk; exact id
    | endOfInput | error message notes =>
      exact hOther fun k hk => by rw [hFront] at hk; cases hk; exact id

end

theorem foresees_valueWithin (context : ValueContext) (room : Nat) : Foresees room
    (valueWithin context room) (phrases (ValuePhrase context.references) Value.nesting) [] := by
  induction room with
  | zero => exact foresees_tooDeep (phrases_succ_zero _ _)
  | succ room ih =>
    exact (foresees_valueOf ih).nested (inner_phrases_succ _ _) (phrases_succ_zero _ _)

theorem foresees_value (context : ValueContext) : Foresees maxDepth (value context)
    (phrases (ValuePhrase context.references) Value.nesting) [] :=
  foresees_valueWithin context maxDepth

theorem foresees_listValue :
    Foresees maxDepth listValue (phrases (ListPhrase (ValuePhrase true)) ListValue.nesting) [] :=
  foresees_listValueOf (foresees_value .argument) (completable_value _ _) (starts_value _ _)

theorem foresees_objectValue :
    Foresees maxDepth objectValue (phrases (ObjectPhrase (ValuePhrase true)) ObjectValue.nesting) [] :=
  foresees_objectValueOf (foresees_value .argument) (completable_value _ _)

end GraphQLSyntax.Parser
