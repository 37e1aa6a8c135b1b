import GraphQLSyntax.Proofs.Termination.Runs

/-!
# Every routine returns

Between two tokens that are consumed, a routine calls only routines of lower rank. So a run has fewer tokens left or a
lower rank with every call, and comes to an end.
-/

set_option autoImplicit false

namespace GraphQLSyntax

namespace Parser

open Code

variable {α β : Type}

/-! ## Ranks -/

/-- A bound on how many calls are pending before a token is consumed. -/
def Routine.rank : {α : Type} → Routine α → Nat
  | _, whole _ | _, wholeDocument => 5
  | _, document => 4
  | _, definition | _, selection | _, typeReference => 3
  | _, operationDefinition | _, field | _, optionalDirectives | _, typeReferenceBody | _, nonNullType | _, value _ => 2
  | _, variableDefinition | _, selectionSet | _, inlineFragment | _, directives | _, optionalArguments _
  | _, argument | _, nullableType | _, valueBody _ => 1
  | _, _ => 0

def Procedure.rank : {α : Type} → Procedure α → Nat
  | _, routine r => r.rank
  | _, loop _ => 4

/-- Only procedures of lower rank are called until a token is consumed. -/
def Code.Guarded (rank : Nat) : {α : Type} → Code α → Prop
  | _, step _ => True
  | _, bind c f => c.Guarded rank ∧ (c.Takes ∨ ∀ a, (f a).Guarded rank)
  | _, nested c => c.Guarded rank
  | _, perform x => x.rank < rank

namespace Code.Guarded

variable {rank : Nat} {c : Code α} {f : α → Code β}

/-- After a token, whatever may be called. -/
theorem taking (h : c.Guarded rank) (hTakes : c.Takes) : (c >>= f).Guarded rank := ⟨h, .inl hTakes⟩

theorem bind (h : c.Guarded rank) (hf : ∀ a, (f a).Guarded rank) : (c >>= f).Guarded rank := ⟨h, .inr hf⟩

theorem ite {d : Code α} {b : Prop} [Decidable b] (hc : c.Guarded rank) (hd : d.Guarded rank) :
    (if b then c else d).Guarded rank := by
  split
  · exact hc
  · exact hd

/-- A routine that consumes a token is called, and then anything. -/
theorem calling {r : Routine α} (h : r.rank < rank) (hTakes : r.isOptional = false) : (call r >>= f).Guarded rank :=
  taking h hTakes

end Code.Guarded

open Code.Guarded

theorem guarded_optionalListCode {rank : Nat} (q : Punctuator) {c : Code (List α)} (h : c.Guarded rank) :
    (optionalListCode q c).Guarded rank :=
  bind trivial fun _ => ite h trivial

theorem guarded_enclosedCode (rank : Nat) (e : Enclosure) (l : Repetition α) : (enclosedCode e l).Guarded rank :=
  taking trivial (consumes_openEnclosure e)

theorem guarded_enclosedSomeCode (rank : Nat) (e : Enclosure) (l : Repetition α) :
    (enclosedSomeCode e l).Guarded rank :=
  taking trivial (consumes_openEnclosure e)

theorem guarded_constructCode (symbol : GrammarSymbol) : (constructCode symbol).Guarded 5 := by
  cases symbol <;> exact calling (by decide) rfl

theorem Routine.guarded_code (r : Routine α) : r.code.Guarded r.rank := by
  cases r with
  | whole symbol => exact taking (guarded_constructCode symbol) (takes_constructCode symbol)
  | wholeDocument | document | variableDefinition | field | inlineFragment | directives | argument
  | typeReferenceBody | nonNullType => exact calling (by decide) rfl
  | definition =>
    refine bind trivial fun _ => ite (calling (by decide) rfl) (bind trivial fun _ => ?_)
    exact ite (calling (by decide) rfl) (bind trivial fun _ => trivial)
  | operationDefinition => exact bind trivial fun _ => ite (calling (by decide) rfl) (calling (by decide) rfl)
  | selection =>
    refine bind trivial fun _ => ite (bind trivial fun _ => ?_) (calling (by decide) rfl)
    exact ite (calling (by decide) rfl) (calling (by decide) rfl)
  | nullableType => exact bind trivial fun _ => ite (calling (by decide) rfl) (calling (by decide) rfl)
  | valueBody context =>
    refine bind trivial fun kind => ?_
    split
    · trivial
    · exact calling Nat.zero_lt_one rfl
    · exact calling Nat.zero_lt_one rfl
    · exact calling Nat.zero_lt_one rfl
    · exact Nat.zero_lt_one
    · exact Nat.zero_lt_one
    · exact Nat.zero_lt_one
    · exact calling Nat.zero_lt_one rfl
    · exact calling Nat.zero_lt_one rfl
    · trivial
  | selectionSet => exact Nat.zero_lt_one
  | typeReference => exact Nat.lt_succ_self 2
  | value => exact Nat.lt_succ_self 1
  | optionalDirectives => exact guarded_optionalListCode _ (Nat.lt_succ_self 1)
  | optionalArguments => exact guarded_optionalListCode _ Nat.zero_lt_one
  | fragmentDefinition => exact taking trivial (consumes_expectWord "fragment")
  | fieldHead => exact taking trivial consumes_fieldName
  | fragmentSpread | inlineFragmentHead => exact taking trivial (consumes_expect .ellipsis)
  | directive => exact taking trivial (consumes_expect .atSign)
  | listType => exact taking trivial (consumes_openEnclosure .listType)
  | listValue | objectValue => exact taking (guarded_enclosedCode _ _ _) (takes_enclosedCode _ _)
  | variableDefinitions | selectionSetBody | arguments =>
    exact taking (guarded_enclosedSomeCode _ _ _) (takes_enclosedSomeCode _ _)
  | operationType | fragmentName | typeCondition | responseAlias | namedType | reference | booleanNullOrEnum | intValue
  | floatValue | stringValue | name => trivial

theorem Repetition.guarded_itemCode (l : Repetition α) : l.itemCode.Guarded 4 := by
  cases l with
  | definitions | selections => exact (by decide : 3 < 4)
  | listItems => exact (by decide : 2 < 4)
  | variableDefinitions | arguments => exact (by decide : 1 < 4)
  | directives => exact (by decide : 0 < 4)
  | objectFields => exact calling (by decide) rfl

theorem Repetition.guarded_code (l : Repetition α) : l.code.Guarded 4 :=
  bind trivial fun _ => ite (taking l.guarded_itemCode l.takes_itemCode) trivial

theorem Procedure.guarded_code (x : Procedure α) : x.code.Guarded x.rank := by
  cases x with
  | routine r => exact r.guarded_code
  | loop l => exact l.guarded_code

/-! ## Runs that end -/

/-- There is a run from the state, which is finite as every run is. -/
def Returns (c : Code α) (s : ParserState) : Prop := ∃ r, Runs c s r

/-- Every procedure returns from where fewer tokens are left than the number given. -/
def ReturnsBelow (n : Nat) : Prop :=
  ∀ ⦃α : Type⦄ (x : Procedure α) (s : ParserState), s.rest.length < n → Returns (.perform x) s

variable {c : Code α} {f : α → Code β} {s t : ParserState} {n rank : Nat}

theorem Returns.bind (hc : Returns c s) (hf : ∀ a t, Runs c s (.ok a t) → Returns (f a) t) : Returns (.bind c f) s := by
  obtain ⟨_ | ⟨e, t⟩, hRun⟩ := hc
  · obtain ⟨r, hRest⟩ := hf _ _ hRun
    exact ⟨r, .bindOk hRun hRest⟩
  · exact ⟨.error e t, .bindError hRun⟩

theorem Returns.nested (h : Returns c { s with depth := s.depth + 1 }) : Returns (.nested c) s := by
  by_cases hDepth : s.depth < maxDepth
  · obtain ⟨r, hRun⟩ := h
    exact ⟨leaveLevel r, .nested hDepth hRun⟩
  · exact ⟨tooDeep s, .tooDeep c hDepth⟩

/-- Any code returns if the procedures do, as no step adds to the tokens that are left. -/
theorem Code.returns (hFewer : ReturnsBelow n) (c : Code α) (hs : s.rest.length < n) : Returns c s := by
  induction c generalizing s with
  | step h => exact ⟨_, .step h s⟩
  | bind c f ihFirst ihRest =>
    exact (ihFirst hs).bind fun a t hRun => ihRest a (Nat.lt_of_le_of_lt hRun.proceeds.length_le hs)
  | nested c ih => exact .nested (ih hs)
  | perform x => exact hFewer x s hs

/-- Until a token is consumed, only procedures of lower rank have to return. -/
theorem Code.Guarded.returns (hFewer : ReturnsBelow n)
    (hLower : ∀ ⦃γ : Type⦄ (x : Procedure γ) (t : ParserState), x.rank < rank → t.rest.length ≤ n →
      Returns (.perform x) t)
    (hGuarded : c.Guarded rank) (hs : s.rest.length ≤ n) : Returns c s := by
  induction c generalizing s with
  | step h => exact ⟨_, .step h s⟩
  | bind c f ihFirst ihRest =>
    obtain ⟨hFirst, hTakes | hRest⟩ := hGuarded
    · exact (ihFirst hFirst hs).bind fun a t hRun =>
        (f a).returns hFewer (Nat.lt_of_lt_of_le (hRun.consumes hTakes a t rfl) hs)
    · exact (ihFirst hFirst hs).bind fun a t hRun =>
        ihRest a (hRest a) (Nat.le_trans hRun.proceeds.length_le hs)
  | nested c ih => exact .nested (ih hGuarded hs)
  | perform x => exact hLower x s hGuarded hs

theorem ReturnsBelow.of_rank (hFewer : ReturnsBelow n) (x : Procedure α) (hRank : x.rank < rank)
    (hs : s.rest.length ≤ n) : Returns (.perform x) s := by
  induction rank generalizing α s with
  | zero => exact absurd hRank (Nat.not_lt_zero _)
  | succ rank ih =>
    have hLower : ∀ ⦃γ : Type⦄ (y : Procedure γ) (t : ParserState), y.rank < x.rank → t.rest.length ≤ n →
        Returns (.perform y) t :=
      fun _ y t hy ht => ih y (Nat.lt_of_lt_of_le hy (Nat.le_of_lt_succ hRank)) ht
    obtain ⟨r, hRun⟩ := x.guarded_code.returns hFewer hLower hs
    exact ⟨r, .perform hRun⟩

/-- The number of tokens that are left goes down first, and the rank while that stays. -/
theorem returnsBelow (n : Nat) : ReturnsBelow n := by
  induction n with
  | zero => exact fun _ _ _ hs => absurd hs (Nat.not_lt_zero _)
  | succ n ih => exact fun _ x _ hs => ih.of_rank x (Nat.lt_succ_self x.rank) (Nat.le_of_lt_succ hs)

/-- From every state, every code has a run, and it ends as the parser does. -/
theorem Code.runs (c : Code α) (s : ParserState) : Runs c s (c.parser s) := by
  obtain ⟨r, hRun⟩ := c.returns (returnsBelow _) (Nat.lt_succ_self s.rest.length)
  rw [← hRun.eq]
  exact hRun

/-! ## Tokens that are consumed -/

theorem exists_consumed (h : t.rest <:+ s.rest) (hFewer : t.rest.length < s.rest.length) :
    ∃ token tokens, s.rest = token :: (tokens ++ t.rest) := by
  obtain ⟨_ | ⟨token, tokens⟩, hRest⟩ := h
  · rw [← hRest] at hFewer
    exact absurd hFewer (Nat.lt_irrefl _)
  · exact ⟨token, tokens, hRest.symm⟩

theorem Routine.consumes (r : Routine α) (h : r.isOptional = false) : Consumes r.parser :=
  fun s t a hOk => ((call r).runs s).consumes h a t hOk

theorem Routine.proceeds (r : Routine α) : Proceeds r.parser := fun s => ((call r).runs s).proceeds

namespace Repetition

variable {l : Repetition α} {i : α} {e : ParseError} {u : ParserState}

theorem proceeds_item (l : Repetition α) : Proceeds l.item := by
  rw [← l.parser_itemCode]
  exact fun s => (l.itemCode.runs s).proceeds

theorem parser_of_round (hMore : l.more s = .ok true t) (hItem : l.item t = .ok i u) :
    l.parser s = (do return i :: (← l.parser)) u := by
  conv_lhs => rw [l.parser_eq, bind_of_ok hMore, if_pos rfl, bind_of_ok hItem]

theorem parser_of_failure (hMore : l.more s = .ok true t) (hItem : l.item t = .error e u) :
    l.parser s = .error e u := by
  rw [l.parser_eq, bind_of_ok hMore, if_pos rfl, bind_of_error hItem]

end Repetition

/-- From every state, with whatever tokens left, each routine returns, with one result, which is that of its parser. If
it succeeds, it has consumed a token, unless it reads a list that may be left out. Each loop returns as well, and every
round of it consumes a token and goes on with the loop, or leaves the loop with an error. -/
theorem parsing_terminates (r : Routine α) (s : ParserState) :
    (∃! result, Runs (call r) s result) ∧ Runs (call r) s (r.parser s) ∧
    (r.isOptional = false → ∀ a t, r.parser s = .ok a t → ∃ token tokens, s.rest = token :: (tokens ++ t.rest)) ∧
    ∀ {β : Type} (l : Repetition β), Runs (loop l) s (l.parser s) ∧ ∀ t, l.more s = .ok true t →
      (∃ i u token tokens, l.item t = .ok i u ∧ s.rest = token :: (tokens ++ u.rest) ∧
        l.parser s = (do return i :: (← l.parser)) u) ∨
      ∃ e u, l.item t = .error e u ∧ l.parser s = .error e u := by
  have hRun := (call r).runs s
  refine ⟨⟨_, hRun, fun _ h => h.eq⟩, hRun, fun hOptional a t hOk => ?_, fun l => ⟨(loop l).runs s, ?_⟩⟩
  · have hProceeds := r.proceeds s
    rw [hOk] at hProceeds
    exact exists_consumed hProceeds (r.consumes hOptional hOk)
  · intro t hMore
    have hLooked := l.plain_more.proceeds s
    rw [hMore] at hLooked
    cases hItem : l.item t with
    | error e u => exact .inr ⟨e, u, rfl, Repetition.parser_of_failure hMore hItem⟩
    | ok i u =>
      have hProceeds := l.proceeds_item t
      rw [hItem] at hProceeds
      have hFewer := Nat.lt_of_lt_of_le (l.consumes_item hItem) hLooked.length_le
      obtain ⟨token, tokens, hRest⟩ := exists_consumed (hProceeds.trans hLooked) hFewer
      exact .inl ⟨i, u, token, tokens, rfl, hRest, Repetition.parser_of_round hMore hItem⟩

/-- The list `[a]` is read before what the lexer could not read. In the list, a round consumes the item. Where there is
only what the lexer could not read, a round leaves the loop. -/
theorem parsing_terminates_list :
    let token (kind : TokenKind) : Token := ⟨kind, .emptyAt .origin⟩
    let broken := token (.error "unexpected character" [])
    let list := Routine.listValue .argument
    let items := Repetition.listItems .argument
    let s : ParserState :=
      .ofTokens [token (.punctuator .bracketOpen), token (.name "a"), token (.punctuator .bracketClose), broken]
    let inside : ParserState := .ofTokens [token (.name "a"), token (.punctuator .bracketClose), broken]
    let insideLooked : ParserState :=
      ⟨⟨[token (.name "a")], [token (.punctuator .bracketClose), broken]⟩, [], 0, none⟩
    let stuck : ParserState := .ofTokens [broken, token .endOfInput]
    let stuckLooked : ParserState := ⟨⟨[broken], [token .endOfInput]⟩, [], 0, none⟩
    (list.isOptional = false ∧ ∃ a t first tokens, list.parser s = .ok a t ∧ s.rest = first :: (tokens ++ t.rest)) ∧
    (items.more inside = .ok true insideLooked ∧ ∃ i u first tokens, items.item insideLooked = .ok i u ∧
      inside.rest = first :: (tokens ++ u.rest) ∧ items.parser inside = (do return i :: (← items.parser)) u) ∧
    items.more stuck = .ok true stuckLooked ∧
    ∃ e u, items.item stuckLooked = .error e u ∧ items.parser stuck = .error e u := by
  intro token broken list items s inside insideLooked stuck stuckLooked
  obtain ⟨-, -, hConsumes, -⟩ := parsing_terminates list s
  obtain ⟨-, -, -, hInside⟩ := parsing_terminates list inside
  obtain ⟨-, -, -, hStuck⟩ := parsing_terminates list stuck
  have hList : (match list.parser s with
      | .ok _ _ => true
      | .error _ _ => false) = true := by decide +kernel
  have hItem : (match items.item insideLooked with
      | .ok _ _ => true
      | .error _ _ => false) = true := by decide +kernel
  have hFailure : (match items.item stuckLooked with
      | .ok _ _ => true
      | .error _ _ => false) = false := by decide +kernel
  refine ⟨⟨rfl, ?_⟩, ⟨rfl, ?_⟩, rfl, ?_⟩
  · cases hRun : list.parser s with
    | ok a t =>
      obtain ⟨first, tokens, hRest⟩ := hConsumes rfl a t hRun
      exact ⟨a, t, first, tokens, rfl, hRest⟩
    | error e t =>
      rw [hRun] at hList
      cases hList
  · obtain hRound | ⟨e, u, hLeft, -⟩ := (hInside items).2 insideLooked rfl
    · exact hRound
    · rw [hLeft] at hItem
      cases hItem
  · obtain ⟨i, u, -, -, hRound, -⟩ | hLeft := (hStuck items).2 stuckLooked rfl
    · rw [hRound] at hFailure
      cases hFailure
    · exact hLeft

end Parser

end GraphQLSyntax
