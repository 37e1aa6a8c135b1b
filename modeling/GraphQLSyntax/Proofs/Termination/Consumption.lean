import GraphQLSyntax.Proofs.Termination.Code

/-!
# What the code of a routine consumes

No step puts a token back. So a code has consumed a token when any part of it has, and the code of every routine has
such a part, the optional lists apart.
-/

set_option autoImplicit false

namespace GraphQLSyntax

namespace Parser

variable {α β : Type} {p : Parser α} {f : α → Parser β}

/-! ## Steps that put nothing back -/

/-- The tokens that are left are the last ones of those there were. -/
def Proceeds (p : Parser α) : Prop := ∀ s, (finalState (p s)).rest <:+ s.rest

theorem Proceeds.bind (hp : Proceeds p) (hf : ∀ a, Proceeds (f a)) : Proceeds (p >>= f) := by
  intro s
  have hFirst := hp s
  cases hRun : p s with
  | error e t =>
    rw [hRun] at hFirst
    rw [bind_of_error hRun]
    exact hFirst
  | ok a t =>
    rw [hRun] at hFirst
    rw [bind_of_ok hRun]
    exact (hf a t).trans hFirst

theorem proceeds_next : Proceeds next := by
  intro s
  obtain ⟨-, hTail⟩ := TokenStream.consume_eq s.stream
  have hRest : (finalState (next s)).rest = s.rest.tail := by
    rw [ParserState.rest, ParserState.rest, ← hTail, next]
    rcases s.stream.consume with ⟨_ | t, stream⟩ <;> rfl
  rw [hRest]
  exact List.tail_suffix s.rest

theorem proceeds_isAtEnd : Proceeds isAtEnd := by
  intro s
  rw [finalState_isAtEnd, ParserState.rest, TokenStream.toList_peekNth]
  exact List.suffix_rfl

theorem Plain.proceeds (h : Plain p) : Proceeds p := by
  induction h with
  | pure | get | throw => exact fun _ => List.suffix_rfl
  | peekNth n =>
    intro s
    change (s.stream.peekNth n).2.toList <:+ s.rest
    rw [TokenStream.toList_peekNth]
    exact List.suffix_rfl
  | isAtEnd => exact proceeds_isAtEnd
  | next => exact proceeds_next
  | bind _ _ ihFirst ihRest => exact ihFirst.bind ihRest

theorem proceeds_refuseEnd : Proceeds refuseEnd := by
  refine proceeds_isAtEnd.bind fun atEnd => ?_
  cases atEnd with
  | false => exact (Plain.pure ()).proceeds
  | true =>
    intro s
    rcases s with ⟨stream, _ | ⟨opener, openers⟩, depth, lastEnd⟩ <;> exact List.suffix_rfl

theorem Straight.proceeds (h : Straight p) : Proceeds p := by
  cases h with
  | plain h => exact h.proceeds
  | openEnclosure e => exact (plain_expect e.opening).proceeds.bind fun _ _ => List.suffix_rfl
  | closeEnclosure e =>
    exact proceeds_refuseEnd.bind fun _ => (plain_expect e.closing).proceeds.bind fun _ _ => List.suffix_rfl
  | refuseEnd => exact proceeds_refuseEnd

/-! ## Steps that consume -/

theorem Consumes.first (hp : Consumes p) (hf : ∀ a, Proceeds (f a)) : Consumes (p >>= f) := by
  intro s t b h
  obtain ⟨a, s₁, hRun, h⟩ := bind_eq_ok h
  have hProceeds := hf a s₁
  rw [h] at hProceeds
  exact Nat.lt_of_le_of_lt hProceeds.length_le (hp hRun)

theorem Consumes.later (hp : Proceeds p) (hf : ∀ a, Consumes (f a)) : Consumes (p >>= f) := by
  intro s t b h
  obtain ⟨a, s₁, hRun, h⟩ := bind_eq_ok h
  have hProceeds := hp s
  rw [hRun] at hProceeds
  exact Nat.lt_of_lt_of_le (hf a h) hProceeds.length_le

theorem Consumes.ite {q : Parser α} {c : Prop} [Decidable c] (hp : Consumes p) (hq : Consumes q) :
    Consumes (if c then p else q) := by
  split
  · exact hp
  · exact hq

theorem consumes_unexpected (expected : Expected) : Consumes (unexpected expected : Parser α) :=
  fun _ _ _ h => absurd h (unexpected_ne_ok _ _ _ _)

theorem consumes_throwHere (f : Span → ParseError) : Consumes (do throw (f (← peekSpan)) : Parser α) :=
  .later plain_peekSpan.proceeds fun _ _ _ _ h => nomatch h

theorem consumes_next : Consumes next := by
  intro s t token h
  rw [(next_eq_ok h).1]
  exact Nat.lt_succ_self _

theorem consumes_expect (q : Punctuator) : Consumes (expect q) :=
  .later (plain_peekIs q).proceeds fun _ => .ite consumes_next (consumes_unexpected _)

theorem consumes_expectWord (word : String) : Consumes (expectWord word) :=
  .later (plain_peekIsWord word).proceeds fun _ =>
    .ite (consumes_next.first fun _ => (Plain.pure _).proceeds) (consumes_unexpected _)

theorem consumes_openEnclosure (e : Enclosure) : Consumes (openEnclosure e) :=
  (consumes_expect e.opening).first fun _ _ => List.suffix_rfl

theorem consumes_name : Consumes name := implements_name.consumes name_startsWith

theorem consumes_namedType : Consumes namedType := implements_namedType.consumes namedType_startsWith

theorem consumes_reference : Consumes reference :=
  (consumes_expect .dollar).first fun dollar => (plain_name.bind fun _ => (plain_spanFrom dollar.span).map _).proceeds

theorem consumes_responseAlias : Consumes responseAlias :=
  consumes_name.first fun name => (plain_finishAlias name).proceeds

theorem consumes_fieldName : Consumes fieldName :=
  consumes_name.first fun first => ((plain_peekIs .colon).bind fun _ =>
    .ite ((plain_finishAlias first).bind fun _ => plain_name.map _) (.pure _)).proceeds

theorem consumes_fragmentName : Consumes fragmentName := by
  refine .later (plain_peekIsWord "on").proceeds fun isOn => ?_
  cases isOn with
  | true => exact consumes_throwHere _
  | false => exact consumes_name

theorem consumes_typeCondition : Consumes typeCondition :=
  (consumes_expectWord "on").first fun on => (plain_namedType.bind fun _ => (plain_spanFrom on).map _).proceeds

theorem consumes_operationType : Consumes operationType := by
  refine .later plain_peekKind.proceeds fun kind => ?_
  split
  · split
    · exact consumes_next.first fun _ => (Plain.pure _).proceeds
    · exact consumes_unexpected _
  · exact consumes_unexpected _

theorem consumes_refuseDefinition (found? : Option DefinitionKind) : Consumes (match found? with
    | some found => do
      throw ⟨found.description ++ " not allowed in executable document", ← peekSpan, .wrongDocumentKind found, []⟩
    | none => unexpected .definition : Parser Definition) := by
  cases found? with
  | some found => exact consumes_throwHere _
  | none => exact consumes_unexpected _

theorem consumes_referenceIn (context : ValueContext) :
    Consumes (match context.constantName? with
      | some place => do throw ⟨"variables are not allowed in " ++ place, ← peekSpan, .invalidSyntax, []⟩
      | none => do return Value.reference (← reference)) := by
  split
  · exact consumes_throwHere _
  · exact consumes_reference.first fun _ => (Plain.pure _).proceeds

theorem consumes_booleanNullOrEnum : Consumes booleanNullOrEnum := by
  refine consumes_next.first fun token => Plain.proceeds ?_
  split
  · exact .pure _
  · exact .pure _
  · exact .pure _
  · exact .throw _

theorem consumes_intValue : Consumes intValue :=
  implements_intValue.consumes (P := fun _ => True) fun _ _ ⟨_⟩ => ⟨_, [], rfl, trivial⟩

theorem consumes_floatValue : Consumes floatValue :=
  implements_floatValue.consumes (P := fun _ => True) fun _ _ ⟨_⟩ => ⟨_, [], rfl, trivial⟩

theorem consumes_stringValue : Consumes stringValue :=
  implements_stringValue.consumes (P := fun _ => True) fun _ _ ⟨_⟩ => ⟨_, [], rfl, trivial⟩

/-! ## Code that consumes -/

open Code

/-- The lists that may be left out. -/
def Routine.isOptional : {α : Type} → Routine α → Bool
  | _, optionalArguments _ | _, optionalDirectives => true
  | _, _ => false

/-- A part of the code consumes a token, whichever way it goes on. -/
def Code.Takes : {α : Type} → Code α → Prop
  | _, @step _ p _ => Consumes p
  | _, bind c f => c.Takes ∨ ∀ a, (f a).Takes
  | _, nested c => c.Takes
  | _, perform (.routine r) => r.isOptional = false
  | _, perform (.loop _) => False

namespace Code.Takes

variable {c : Code α} {f : α → Code β}

theorem first (h : c.Takes) : (c >>= f).Takes := .inl h

theorem later (h : ∀ a, (f a).Takes) : (c >>= f).Takes := .inr h

theorem ite {d : Code α} {b : Prop} [Decidable b] (hc : c.Takes) (hd : d.Takes) : (if b then c else d).Takes := by
  split
  · exact hc
  · exact hd

end Code.Takes

theorem takes_enclosedCode (e : Enclosure) (l : Repetition α) : (enclosedCode e l).Takes :=
  .first (consumes_openEnclosure e)

theorem takes_enclosedSomeCode (e : Enclosure) (l : Repetition α) : (enclosedSomeCode e l).Takes :=
  .first (consumes_openEnclosure e)

theorem takes_constructCode (symbol : GrammarSymbol) : (constructCode symbol).Takes := by
  cases symbol <;> exact .first rfl

theorem Routine.takes_code (r : Routine α) (h : r.isOptional = false) : r.code.Takes := by
  cases r with
  | optionalArguments | optionalDirectives => cases h
  | whole symbol => exact .first (takes_constructCode symbol)
  | operationDefinition => exact .later fun _ => .ite (.first rfl) (.first rfl)
  | definition =>
    exact .later fun _ => .ite (.first rfl) (.later fun _ => .ite (.first rfl) (.later consumes_refuseDefinition))
  | selection => exact .later fun _ => .ite (.later fun _ => .ite (.first rfl) (.first rfl)) (.first rfl)
  | nullableType => exact .later fun _ => .ite (.first rfl) (.first rfl)
  | valueBody context =>
    refine .later fun kind => ?_
    split
    · exact consumes_referenceIn context
    · exact .first rfl
    · exact .first rfl
    · exact .first rfl
    · exact rfl
    · exact rfl
    · exact rfl
    · exact .first rfl
    · exact .first rfl
    · exact consumes_unexpected _
  | fragmentDefinition => exact .first (consumes_expectWord "fragment")
  | fieldHead => exact .first consumes_fieldName
  | fragmentSpread | inlineFragmentHead => exact .first (consumes_expect .ellipsis)
  | directive => exact .first (consumes_expect .atSign)
  | listType => exact .first (consumes_openEnclosure .listType)
  | listValue | objectValue => exact .first (takes_enclosedCode _ _)
  | variableDefinitions | selectionSetBody | arguments => exact .first (takes_enclosedSomeCode _ _)
  | operationType => exact consumes_operationType
  | fragmentName => exact consumes_fragmentName
  | typeCondition => exact consumes_typeCondition
  | responseAlias => exact consumes_responseAlias
  | namedType => exact consumes_namedType
  | reference => exact consumes_reference
  | booleanNullOrEnum => exact consumes_booleanNullOrEnum
  | intValue => exact consumes_intValue
  | floatValue => exact consumes_floatValue
  | stringValue => exact consumes_stringValue
  | name => exact consumes_name
  | wholeDocument | document | variableDefinition | field | inlineFragment | directives | argument
  | typeReferenceBody => exact .first rfl
  | nonNullType => exact .first rfl
  | selectionSet | typeReference | value => exact rfl

theorem Repetition.takes_itemCode (l : Repetition α) : l.itemCode.Takes := by
  cases l with
  | objectFields => exact .first rfl
  | _ => exact rfl

end Parser

end GraphQLSyntax
