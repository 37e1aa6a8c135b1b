import GraphQLSyntax.Proofs.Grammar.Constant
import GraphQLSyntax.Proofs.Parsing.Language
import GraphQLSyntax.Proofs.Tree.Layout

/-!
# Values without variables

Where variables are forbidden, a value is parsed as it is elsewhere, step by step, up to the first dollar sign. There the
parse fails.
-/

set_option autoImplicit false

namespace GraphQLSyntax

/-- Tokens among which there is no dollar sign. -/
def Dollarless (ts : List Token) : Prop := ∀ t ∈ ts, ¬ t.Is .dollar

namespace Parser

variable {α β : Type} {p q : Parser α} {f g : α → Parser β} {s s₁ : ParserState} {ts : List Token}

/-- A run that fails because of the first dollar sign in what is left. -/
def RefusesDollar (s : ParserState) (r : EStateM.Result ParseError ParserState α) : Prop :=
  ∃ ts dollar us e s', s.rest = ts ++ dollar :: us ∧ Dollarless ts ∧ dollar.Is .dollar ∧ r = .error e s' ∧
    e.kind = .invalidSyntax ∧ e.span = dollar.span

/-- A second run goes as the first one if that consumes no dollar sign, and refuses the first dollar sign if it does. -/
def Forbidden (s : ParserState) (r r' : EStateM.Result ParseError ParserState α) : Prop :=
  ∀ a s', r = .ok a s' → (r' = .ok a s' ∧ ∃ ts, Moves s ts s' ∧ Dollarless ts) ∨ RefusesDollar s r'

def Forbids (p q : Parser α) : Prop := ∀ s, Forbidden s (p s) (q s)

theorem RefusesDollar.of_moves {r : EStateM.Result ParseError ParserState α} (hMoves : Moves s ts s₁)
    (hts : Dollarless ts) (h : RefusesDollar s₁ r) : RefusesDollar s r := by
  obtain ⟨us, dollar, vs, e, s', hRest, hus, hDollar, hError⟩ := h
  refine ⟨ts ++ us, dollar, vs, e, s', ?_, List.forall_mem_append.mpr ⟨hts, hus⟩, hDollar, hError⟩
  rw [hMoves.rest, hRest, List.append_assoc]

theorem Forbidden.bind (hp : Forbidden s (p s) (q s)) (hf : ∀ a s₁, p s = .ok a s₁ → Forbidden s₁ (f a s₁) (g a s₁)) :
    Forbidden s ((p >>= f) s) ((q >>= g) s) := by
  intro b s₂ h
  obtain ⟨a, s₁, hRun, h⟩ := bind_eq_ok h
  obtain ⟨hSame, ts, hMoves, hts⟩ | ⟨ts, dollar, us, e, s', hRest, hts, hDollar, hError, hReason⟩ := hp a s₁ hRun
  · rw [bind_of_ok hSame]
    obtain ⟨hSame₁, us, hMoves₁, hus⟩ | hRefused := hf a s₁ hRun b s₂ h
    · exact .inl ⟨hSame₁, ts ++ us, hMoves.trans hMoves₁, List.forall_mem_append.mpr ⟨hts, hus⟩⟩
    · exact .inr (hRefused.of_moves hMoves hts)
  · exact .inr ⟨ts, dollar, us, e, s', hRest, hts, hDollar, bind_of_error hError, hReason⟩

theorem Forbids.bind (hp : Forbids p q) (hf : ∀ a, Forbids (f a) (g a)) : Forbids (p >>= f) (q >>= g) :=
  fun s => (hp s).bind fun a s₁ _ => hf a s₁

theorem Forbids.pure (a : α) : Forbids (pure a) (pure a) := by
  intro s b s' h
  cases h
  exact .inl ⟨rfl, [], .refl s, List.forall_mem_nil _⟩

theorem Forbids.map (hp : Forbids p q) (g : α → β) : Forbids (do return g (← p)) (do return g (← q)) :=
  hp.bind fun a => .pure (g a)

theorem Forbids.ite {p' q' : Parser α} {b : Bool} (hp : Forbids p p') (hq : Forbids q q') :
    Forbids (if b then p else q) (if b then p' else q') := by
  cases b with
  | true => exact hp
  | false => exact hq

/-- A parser that takes no dollar sign. -/
theorem forbids_self (hp : ∀ {s s' a}, p s = .ok a s' → ∃ ts, Moves s ts s' ∧ Dollarless ts) : Forbids p p :=
  fun _ _ _ h => .inl ⟨h, hp h⟩

theorem forbids_of_peeks {a : ParserState → α} (hp : ∀ s, Peeks p s (a s)) : Forbids p p := by
  apply forbids_self
  intro s s' b h
  obtain ⟨s₁, hRun, hMoves⟩ := hp s
  rw [hRun] at h
  cases h
  exact ⟨[], hMoves, List.forall_mem_nil _⟩

theorem Implements.forbids {room : Nat} {D : Production α} {stop : List Punctuator} {nest : α → Nat}
    (hp : Implements room p D stop nest) (hD : ∀ {ts a}, D ts a → Dollarless ts) : Forbids p p := by
  apply forbids_self
  intro s s' a h
  obtain ⟨ts, hMoves, hPhrase, -⟩ := hp.sound h
  exact ⟨ts, hMoves, hD hPhrase⟩

/-! ## Steps -/

theorem dollarless_singleton {t : Token} (h : t.kind ≠ .punctuator .dollar) : Dollarless [t] := by
  simpa [Dollarless, Token.Is] using h

theorem forbids_spanFrom (first : Span) : Forbids (spanFrom first) (spanFrom first) := by
  apply forbids_self
  intro s s' a h
  cases h
  exact ⟨[], .refl s, List.forall_mem_nil _⟩

theorem forbids_name : Forbids name name := by
  apply implements_name.forbids
  rintro _ _ ⟨hText⟩
  apply dollarless_singleton
  intro hKind
  rw [hKind] at hText
  cases hText

theorem forbids_expect {q : Punctuator} (hq : q ≠ .dollar) : Forbids (expect q) (expect q) := by
  apply forbids_self
  intro s s' t h
  have hLast : (expect q >>= pure) s = .ok t s' := bind_of_ok h
  obtain ⟨t, s₁, hMoves, hIs, hPure⟩ := expect_bind_eq_ok hLast
  cases hPure
  refine ⟨[t], hMoves, dollarless_singleton ?_⟩
  rw [hIs]
  simpa using hq

theorem forbids_openEnclosure (e : Enclosure) : Forbids (openEnclosure e) (openEnclosure e) := by
  apply (forbids_expect (by cases e <;> nofun)).bind
  intro opening s a s' h
  cases h
  exact .inl ⟨rfl, [], moves_openers (.refl s) _, List.forall_mem_nil _⟩

theorem forbids_closeEnclosure (e : Enclosure) : Forbids (closeEnclosure e) (closeEnclosure e) := by
  have hRefuse : Forbids refuseEnd refuseEnd := by
    apply forbids_self
    intro s s' u h
    exact ⟨[], refuseEnd_eq_ok h, List.forall_mem_nil _⟩
  apply hRefuse.bind
  intro _
  apply (forbids_expect (by cases e <;> nofun)).bind
  intro _ s a s' h
  cases h
  exact .inl ⟨rfl, [], moves_openers (.refl s) _, List.forall_mem_nil _⟩

theorem Forbids.collect {more : Parser Bool} (hMore : Forbids more more) (hItem : Forbids p q) (tokens : List Token) :
    ∀ items, Forbids (collect more p tokens items) (collect more q tokens items) := by
  induction tokens with
  | nil =>
    intro items
    rw [Parser.collect, Parser.collect]
    exact hMore.bind fun _ => .ite (.pure _) (.pure _)
  | cons _ tokens ih =>
    intro items
    rw [Parser.collect, Parser.collect]
    exact hMore.bind fun _ => .ite (hItem.bind fun i => ih (i :: items)) (.pure _)

theorem Forbids.enclosed (e : Enclosure) (hItem : Forbids p q) : Forbids (enclosed e p) (enclosed e q) := by
  have hMore : Forbids (hasMore e) (hasMore e) := forbids_of_peeks (hasMore_peeks e)
  have hItems : Forbids (repeatWhile (hasMore e) p) (repeatWhile (hasMore e) q) :=
    fun s => hMore.collect hItem s.stream.toList [] s
  apply (forbids_openEnclosure e).bind
  intro opening
  apply hItems.bind
  intro items
  apply (forbids_closeEnclosure e).bind
  intro _
  exact (forbids_spanFrom opening).map _

theorem Forbids.nested (hp : Forbids p q) : Forbids (nested p) (nested q) := by
  intro s a s' h
  unfold Parser.nested at h ⊢
  split at h
  · rename_i hDepth
    rw [if_pos hDepth]
    cases hRun : p { s with depth := s.depth + 1 } with
    | error e s₁ =>
      rw [hRun] at h
      cases h
    | ok b s₁ =>
      rw [hRun] at h
      cases h
      obtain ⟨hSame, ts, hMoves, hts⟩ | ⟨ts, dollar, us, e, s₂, hRest, hts, hDollar, hError, hReason⟩ :=
        hp _ _ s₁ hRun
      · rw [hSame]
        have hBack : s₁.depth = s.depth + 1 := hMoves.depth
        exact .inl ⟨rfl, ts, ⟨hMoves.rest, by simp [hBack], hMoves.lastEnd, hMoves.readable⟩, hts⟩
      · rw [hError]
        exact .inr ⟨ts, dollar, us, e, _, hRest, hts, hDollar, rfl, hReason⟩
  · obtain ⟨span, s₁, hDeep⟩ := tooDeep_error (α := α) s
    rw [hDeep] at h
    cases h

/-! ## Values -/

theorem forbids_intValue : Forbids intValue intValue := by
  apply implements_intValue.forbids
  rintro _ _ ⟨hKind⟩
  exact dollarless_singleton (by rw [hKind]; nofun)

theorem forbids_floatValue : Forbids floatValue floatValue := by
  apply implements_floatValue.forbids
  rintro _ _ ⟨hKind⟩
  exact dollarless_singleton (by rw [hKind]; nofun)

theorem forbids_stringValue : Forbids stringValue stringValue := by
  apply implements_stringValue.forbids
  rintro _ _ ⟨hKind⟩
  exact dollarless_singleton (by rw [hKind]; nofun)

theorem forbids_booleanNullOrEnum : Forbids booleanNullOrEnum booleanNullOrEnum := by
  apply implements_booleanNullOrEnum.forbids
  rintro _ _ (hKind | hKind | hKind) <;> exact dollarless_singleton (by rw [hKind]; nofun)

theorem Forbids.objectFieldOf {p q : Parser Value} (hItem : Forbids p q) :
    Forbids (objectFieldOf p) (objectFieldOf q) := by
  apply forbids_name.bind
  intro name
  apply (forbids_expect (by nofun)).bind
  intro _
  apply hItem.bind
  intro value
  exact (forbids_spanFrom name.span).map _

/-- The first dollar sign is refused at once. -/
theorem Forbids.valueOf {p q : Parser Value} {context : ValueContext} (hContext : context.references = false)
    (hItem : Forbids p q) : Forbids (valueOf .argument p) (valueOf context q) := by
  intro s
  obtain ⟨s₁, hRun, hMoves⟩ := peekKind_peeks s
  have hRest : s₁.rest = s.rest := by rw [hMoves.rest, List.nil_append]
  have hPeek : Forbids peekKind peekKind := forbids_of_peeks peekKind_peeks
  refine (hPeek s).bind fun kind s₂ hKind => ?_
  rw [hRun] at hKind
  cases hKind
  rw [← hRest]
  -- Both runs branch on the same token, and only a dollar sign sets them apart.
  cases hNext : s₁.rest with
  | nil => exact fun a s' h => absurd h (unexpected_ne_ok _ _ _ _)
  | cons t us =>
    obtain ⟨kind, span⟩ := t
    cases kind with
    | int => exact forbids_intValue.map _ s₁
    | float => exact forbids_floatValue.map _ s₁
    | string => exact forbids_stringValue.map _ s₁
    | boolean | null | name => exact forbids_booleanNullOrEnum s₁
    | endOfInput | error => exact fun a s' h => absurd h (unexpected_ne_ok _ _ _ _)
    | punctuator p =>
      cases p with
      | bracketOpen => exact ((hItem.enclosed .listValue).map _).map _ s₁
      | braceOpen => exact ((hItem.objectFieldOf.enclosed .objectValue).map _).map _ s₁
      | dollar =>
        obtain ⟨s₂, hSpan, -⟩ := peekSpan_peeks s₁
        rw [hNext] at hSpan
        intro v s' _
        cases context with
        | argument => cases hContext
        | constant | variableDefault =>
          exact .inr ⟨[], _, us, _, s₂, hNext, List.forall_mem_nil _, rfl, bind_of_ok hSpan, rfl, rfl⟩
      | _ => exact fun a s' h => absurd h (unexpected_ne_ok _ _ _ _)

theorem forbids_valueWithin (context : ValueContext) (hContext : context.references = false) (room : Nat) :
    Forbids (valueWithin .argument room) (valueWithin context room) := by
  induction room with
  | zero =>
    intro s a s' h
    obtain ⟨span, s₁, hDeep⟩ := tooDeep_error (α := Value) s
    rw [valueWithin, hDeep] at h
    cases h
  | succ room ih => exact (ih.valueOf hContext).nested

end Parser

/-! ## Whole texts -/

section

variable {file : Option Path} {source : String} {symbol : GrammarSymbol} {v : Value} {e : ParseError}

/-- The steps of parsing a value and nothing else. -/
theorem steps_of_parse (h : parse file source .value = .ok (.value v)) :
    ∃ s u s', Parser.value .argument (.ofTokens (lex file source)) = .ok v s ∧ Parser.expectEnd s = .ok u s' := by
  unfold parse parseTokens Parser.result EStateM.run at h
  split at h
  · rename_i c s hRun
    cases h
    obtain ⟨c, s₁, hConstruct, hRun⟩ := Parser.bind_eq_ok hRun
    obtain ⟨u, s₂, hEnd, hRun⟩ := Parser.bind_eq_ok hRun
    cases hRun
    obtain ⟨v', s₃, hValue, hConstruct⟩ := Parser.bind_eq_ok hConstruct
    cases hConstruct
    exact ⟨_, u, _, hValue, hEnd⟩
  · cases h

/-- If a value cannot be parsed where variables are forbidden, the first dollar sign is the reason. -/
theorem dollar_of_parse (h : parse file source .value = .ok (.value v))
    (hFails : parse file source .constValue = .error e) :
    ∃ ts dollar us, lex file source = ts ++ dollar :: us ∧ Dollarless ts ∧ dollar.Is .dollar ∧
      e.kind = .invalidSyntax ∧ e.span = dollar.span := by
  obtain ⟨s, u, s', hValue, hEnd⟩ := steps_of_parse h
  unfold parse parseTokens Parser.result EStateM.run Parser.whole at hFails
  obtain ⟨hSame, -⟩ | ⟨ts, dollar, us, e', s₁, hRest, hts, hDollar, hError, hReason⟩ :=
    Parser.forbids_valueWithin .constant rfl maxDepth _ _ _ hValue
  -- Without a dollar sign in it, the value would be parsed here as it is there.
  · have hConstruct : Parser.construct .constValue (.ofTokens (lex file source)) = .ok (.constValue v) s :=
      Parser.bind_of_ok hSame
    rw [Parser.bind_of_ok hConstruct, Parser.bind_of_ok hEnd] at hFails
    cases hFails
  · have hConstruct : Parser.construct .constValue (.ofTokens (lex file source)) = .error e' s₁ :=
      Parser.bind_of_error hError
    rw [Parser.bind_of_error hConstruct] at hFails
    cases hFails
    exact ⟨ts, dollar, us, hRest, hts, hDollar, hReason⟩

theorem parse_constValue_iff : parse file source .constValue = .ok (.constValue v) ↔
    parse file source .value = .ok (.value v) ∧ v.isConstant = true :=
  parse_iff_of_derives_iff (fun _ => derives_constValue_iff) rfl

/-- The default values of a construct are constant. -/
theorem isConstant_of_default {c : Construct} (h : parse file source symbol = .ok c) {d : VariableDefinition}
    (hd : .variableDefinition d ∈ c.walk) (hDefault : d.defaultValue = some v) : v.isConstant = true := by
  obtain ⟨ts, last, -, -, -, hDerives, -⟩ := parse_eq_ok h
  obtain ⟨us, -, hPhrase⟩ := hDerives.exists_phrase _ hd
  obtain ⟨-, -, -, hOptional⟩ := hPhrase
  cases hOptional with
  | absent => cases hDefault
  | present hValue =>
    cases hDefault
    obtain ⟨-, hConst⟩ := hValue
    exact hConst.isConstant

end

/-- Where variables are forbidden, a text is parsed into the value that it is elsewhere if that is constant, and fails at
the first dollar sign if it is not. Default values are constant wherever they stand. -/
theorem parse_constValue (file : Option Path) (source : String) :
    (∀ v, parse file source .constValue = .ok (.constValue v) ↔
      parse file source .value = .ok (.value v) ∧ v.isConstant = true) ∧
    (∀ v, parse file source .value = .ok (.value v) → v.isConstant = false →
      ∃ ts dollar us e, lex file source = ts ++ dollar :: us ∧ (∀ t ∈ ts, ¬ t.Is .dollar) ∧ dollar.Is .dollar ∧
        parse file source .constValue = .error e ∧ e.kind = .invalidSyntax ∧ e.span = dollar.span) ∧
    ∀ symbol c, parse file source symbol = .ok c → ∀ d, .variableDefinition d ∈ c.walk →
      ∀ v, d.defaultValue = some v → v.isConstant = true := by
  refine ⟨fun v => parse_constValue_iff, ?_, fun symbol c h d hd v => isConstant_of_default h hd⟩
  intro v h hVariable
  cases hConst : parse file source .constValue with
  | ok c =>
    obtain ⟨ts, last, -, -, -, ⟨w, -, rfl⟩, -⟩ := parse_eq_ok hConst
    obtain ⟨hValue, hConstant⟩ := parse_constValue_iff.mp hConst
    rw [h] at hValue
    cases hValue
    rw [hVariable] at hConstant
    cases hConstant
  | error e =>
    obtain ⟨ts, dollar, us, hLex, hts, hDollar, hKind, hSpan⟩ := dollar_of_parse h hConst
    exact ⟨ts, dollar, us, e, hLex, hts, hDollar, rfl, hKind, hSpan⟩

/-- A list with a variable in an object and another one behind it, and a default value. -/
theorem parse_constValue_list :
    (∃ v, parse none "[1, \x7ba: $b\x7d, $c]" .value = .ok (.value v) ∧ v.isConstant = false ∧
      ∃ ts dollar us e, lex none "[1, \x7ba: $b\x7d, $c]" = ts ++ dollar :: us ∧ (∀ t ∈ ts, ¬ t.Is .dollar) ∧
        dollar.Is .dollar ∧ parse none "[1, \x7ba: $b\x7d, $c]" .constValue = .error e ∧ e.kind = .invalidSyntax ∧
        e.span = dollar.span) ∧
    ∃ d v, parse none "$a: Int = [1]" .variableDefinition = .ok (.variableDefinition d) ∧
      d.defaultValue = some v ∧ v.isConstant = true := by
  constructor
  · have hList : ((parse none "[1, \x7ba: $b\x7d, $c]" .value).toOption.bind Construct.value?).map Value.isConstant =
        some false := by decide +kernel
    obtain ⟨v, hValue, hVariable⟩ := Option.map_eq_some_iff.mp hList
    obtain ⟨c, hParse, hValue⟩ := Option.bind_eq_some_iff.mp hValue
    cases hResult : parse none "[1, \x7ba: $b\x7d, $c]" .value with
    | error e =>
      rw [hResult] at hParse
      cases hParse
    | ok c' =>
      rw [hResult] at hParse
      cases hParse
      obtain ⟨ts, last, -, -, -, ⟨w, -, rfl⟩, -⟩ := parse_eq_ok hResult
      cases hValue
      exact ⟨v, rfl, hVariable, (parse_constValue none _).2.1 v hResult hVariable⟩
  · have hDefinition : (parse none "$a: Int = [1]" .variableDefinition).toOption.map (fun
        | .variableDefinition d => d.defaultValue.isSome
        | _ => false) = some true := by decide +kernel
    cases hResult : parse none "$a: Int = [1]" .variableDefinition with
    | error e =>
      rw [hResult] at hDefinition
      cases hDefinition
    | ok c =>
      obtain ⟨ts, last, -, -, -, ⟨d, -, rfl⟩, -⟩ := parse_eq_ok hResult
      rw [hResult] at hDefinition
      obtain ⟨v, hDefault⟩ := Option.isSome_iff_exists.mp (Option.some.inj hDefinition)
      have hd : Node.variableDefinition d ∈ (Construct.variableDefinition d).walk := .head _
      exact ⟨d, v, rfl, hDefault, (parse_constValue none _).2.2 _ _ hResult d hd v hDefault⟩

end GraphQLSyntax
