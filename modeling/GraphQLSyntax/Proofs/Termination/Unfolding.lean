import GraphQLSyntax.Proofs.Ending.Parser
import GraphQLSyntax.Proofs.Ledger.Productions

/-!
# Loops and nested constructs unfolded

A loop is given a number of rounds, and a construct that may be nested in itself a number of levels. Neither number is
ever what ends it: a loop goes on with itself after a round, and one level deeper the same parser is at work.
-/

set_option autoImplicit false

namespace GraphQLSyntax

namespace Parser

variable {α β : Type}

/-! ## Rounds -/

section

variable {more : Parser Bool} {item : Parser α} {go : List Token → Bool}

/-- What was collected before stands in front of what is collected from now on. -/
theorem collect_append (tokens : List Token) (items : List α) :
    collect more item tokens items = do return items.reverse ++ (← collect more item tokens []) := by
  induction tokens generalizing items with
  | nil =>
    unfold collect
    rw [bind_assoc]
    refine congrArg _ (funext fun goesOn => ?_)
    cases goesOn with
    | true => simp only [if_true, pure_bind, List.reverse_nil, List.append_nil]
    | false => simp only [Bool.false_eq_true, if_false, pure_bind, List.reverse_nil, List.append_nil]
  | cons t tokens ih =>
    rw [collect, collect, bind_assoc]
    refine congrArg _ (funext fun goesOn => ?_)
    cases goesOn with
    | false => simp only [Bool.false_eq_true, if_false, pure_bind, List.reverse_nil, List.append_nil]
    | true =>
      simp only [if_true, bind_assoc]
      refine congrArg _ (funext fun i => ?_)
      rw [ih (i :: items), ih [i]]
      simp only [bind_assoc, pure_bind, List.reverse_cons, List.reverse_nil, List.nil_append, List.append_assoc]

/-- A loop whose rounds consume tokens is one round and the loop again. -/
theorem repeatWhile_eq (hMore : Looks more go) (hStop : go [] = false) (hConsumes : Consumes item) :
    repeatWhile more item = do
      if ← more then
        let i ← item
        return i :: (← repeatWhile more item)
      else return [] := by
  funext s
  change collect more item s.rest [] s = _
  obtain ⟨s₁, hRun, hMoves, -⟩ := hMore s
  cases hGoes : go s.rest with
  | false =>
    rw [hGoes] at hRun
    rw [collect_done hRun, bind_of_ok hRun]
    rfl
  | true =>
    rw [hGoes] at hRun
    cases hRest : s.rest with
    | nil =>
      rw [hRest, hStop] at hGoes
      cases hGoes
    | cons t tokens =>
      rw [collect, bind_of_ok hRun, bind_of_ok hRun, if_pos rfl, if_pos rfl]
      cases hItem : item s₁ with
      | error e s₂ => rw [bind_of_error hItem, bind_of_error hItem]
      | ok i s₂ =>
        have hFewer := hConsumes hItem
        rw [← List.nil_append s₁.rest, ← hMoves.rest, hRest, List.length_cons] at hFewer
        rw [bind_of_ok hItem, bind_of_ok hItem, collect_append tokens [i]]
        change _ = (do return i :: (← collect more item s₂.rest [])) s₂
        have hRounds := collect_eq (s := s₂) hMore hStop hConsumes [] (Nat.le_of_lt_succ hFewer) (Nat.le_refl _)
        change EStateM.bind _ _ s₂ = EStateM.bind _ _ s₂
        rw [EStateM.bind, EStateM.bind, hRounds]
        rfl

end

/-! ## Levels -/

/-- Parsers that do the same from a depth on. -/
def SameFrom (depth : Nat) (p q : Parser α) : Prop := ∀ s, depth ≤ s.depth → p s = q s

section

variable {depth depth' : Nat} {p q : Parser α} {f g : α → Parser β}

theorem SameFrom.refl (p : Parser α) : SameFrom depth p p := fun _ _ => rfl

theorem SameFrom.mono (h : SameFrom depth p q) (hDepth : depth ≤ depth') : SameFrom depth' p q :=
  fun s hs => h s (Nat.le_trans hDepth hs)

theorem SameFrom.eq (h : SameFrom 0 p q) : p = q := funext fun s => h s (Nat.zero_le _)

theorem SameFrom.ite {p' q' : Parser α} {c : Prop} [Decidable c] (h : SameFrom depth p q)
    (h' : SameFrom depth p' q') : SameFrom depth (if c then p else p') (if c then q else q') := by
  split
  · exact h
  · exact h'

/-- What comes afterwards starts at the same depth. -/
theorem SameFrom.bind (h : SameFrom depth p q) (hDepth : ∀ s, (finalState (p s)).depth = s.depth)
    (hf : ∀ a, SameFrom depth (f a) (g a)) : SameFrom depth (p >>= f) (q >>= g) := by
  intro s hs
  have hEnd := hDepth s
  cases hRun : p s with
  | error e t => rw [bind_of_error hRun, bind_of_error ((h s hs).symm.trans hRun)]
  | ok a t =>
    rw [hRun] at hEnd
    rw [bind_of_ok hRun, bind_of_ok ((h s hs).symm.trans hRun)]
    exact hf a t (Nat.le_trans hs (Nat.le_of_eq hEnd.symm))

theorem Assembly.depth_eq (a : Assembly p) (s : ParserState) : (finalState (p s)).depth = s.depth :=
  (a.settled s).depth_eq

theorem SameFrom.andThen (h : SameFrom depth p q) (a : Assembly p) (f : α → Parser β) :
    SameFrom depth (p >>= f) (q >>= f) :=
  h.bind a.depth_eq fun x => .refl (f x)

/-- What comes before is the same. -/
theorem SameFrom.after (hp : Plain p) (hf : ∀ a, SameFrom depth (f a) (g a)) : SameFrom depth (p >>= f) (p >>= g) :=
  (SameFrom.refl p).bind (Assembly.plain hp).depth_eq hf

theorem SameFrom.nested (h : SameFrom (depth + 1) p q) : SameFrom depth (nested p) (nested q) := by
  intro s hs
  have hInside := h { s with depth := s.depth + 1 } (Nat.succ_le_succ hs)
  unfold Parser.nested
  rw [hInside]

/-- With one level more, what is nested one level deeper is the same from a greater depth on. -/
theorem SameFrom.nested_of_room {room : Nat} (h : SameFrom (maxDepth - room) p q) :
    SameFrom (maxDepth - (room + 1)) (Parser.nested p) (Parser.nested q) :=
  (h.mono (by omega)).nested

theorem sameFrom_tooDeep (p : Parser α) : SameFrom maxDepth (Parser.nested p) tooDeep :=
  fun _ hs => if_neg (Nat.not_lt.mpr hs)

end

theorem SameFrom.within {γ : Type} {depth : Nat} {e : Enclosure} {body body' : Span → Parser α}
    {made : Span → α → Parser γ} (h : ∀ opening, SameFrom depth (body opening) (body' opening))
    (a : ∀ opening, Assembly (body opening)) : SameFrom depth (within e body made) (within e body' made) :=
  (SameFrom.refl _).bind (fun s => (ends_openEnclosure e s).depth_eq) fun opening => (h opening).andThen (a opening) _

section

variable {depth : Nat} {p q : Parser α} (h : SameFrom depth p q) (a : Assembly p)

include h a

theorem SameFrom.collect {more : Parser Bool} (hMore : Plain more) (tokens : List Token) (items : List α) :
    SameFrom depth (collect more p tokens items) (collect more q tokens items) := by
  induction tokens generalizing items with
  | nil => exact .refl _
  | cons t tokens ih => exact .after hMore fun _ => .ite (h.bind a.depth_eq fun i => ih (i :: items)) (.refl _)

theorem SameFrom.repeatWhile {more : Parser Bool} (hMore : Plain more) :
    SameFrom depth (repeatWhile more p) (repeatWhile more q) :=
  .after .get fun s => h.collect a hMore s.stream.toList []

theorem SameFrom.enclosed (e : Enclosure) : SameFrom depth (enclosed e p) (enclosed e q) :=
  .within (fun _ => h.repeatWhile a (plain_hasMore e)) fun _ => repeatWhileAssembly (plain_hasMore e) a

theorem SameFrom.enclosedSome (e : Enclosure) : SameFrom depth (enclosedSome e p) (enclosedSome e q) := by
  rw [enclosedSome_eq_within, enclosedSome_eq_within]
  refine .within (fun opening => .after (plain_peekIs e.closing) fun _ => ?_) (someItemsAssembly e a)
  have hItems := h.repeatWhile a (plain_hasMore e)
  exact .ite (.after .next fun _ => .after (plain_spanFrom opening) fun _ => .after (.throw _) fun _ => hItems) hItems

end

/-! ## Values -/

section

variable {depth : Nat} {p q : Parser Value} (h : SameFrom depth p q) (a : Assembly p)

include h a

theorem SameFrom.listValueOf : SameFrom depth (listValueOf p) (listValueOf q) :=
  (h.enclosed a .listValue).andThen (enclosedAssembly .listValue a) _

theorem SameFrom.objectFieldOf : SameFrom depth (objectFieldOf p) (objectFieldOf q) :=
  .after plain_name fun _ => .after (plain_expect .colon) fun _ => h.andThen a _

theorem SameFrom.objectValueOf : SameFrom depth (objectValueOf p) (objectValueOf q) :=
  ((h.objectFieldOf a).enclosed (objectFieldOfAssembly a) .objectValue).andThen
    (enclosedAssembly .objectValue (objectFieldOfAssembly a)) _

theorem SameFrom.valueOf (context : ValueContext) : SameFrom depth (valueOf context p) (valueOf context q) := by
  refine .after plain_peekKind fun kind => ?_
  cases kind with
  | none => exact .refl _
  | some kind =>
    cases kind with
    | punctuator sign =>
      cases sign with
      | bracketOpen => exact (h.listValueOf a).andThen (listValueOfAssembly a) _
      | braceOpen => exact (h.objectValueOf a).andThen (objectValueOfAssembly a) _
      | _ => exact .refl _
    | _ => exact .refl _

end

theorem sameFrom_valueWithin (context : ValueContext) (room : Nat) :
    SameFrom (maxDepth - room) (valueWithin context (room + 1)) (valueWithin context room) := by
  induction room with
  | zero => exact sameFrom_tooDeep _
  | succ room ih => exact .nested_of_room (ih.valueOf (valueWithinAssembly context (room + 1)) context)

/-- One level deeper, values are parsed as they are here. -/
theorem value_eq (context : ValueContext) : value context = nested (valueOf context (value context)) :=
  (sameFrom_valueWithin context maxDepth).eq.symm

/-! ## Type references -/

section

variable {depth : Nat} {p q : Parser TypeReference} (h : SameFrom depth p q) (a : Assembly p)

include h a

theorem SameFrom.listTypeOf : SameFrom depth (listTypeOf p) (listTypeOf q) := by
  rw [listTypeOf_eq_within, listTypeOf_eq_within]
  exact .within (fun _ => (SameFrom.refl refuseEnd).bind Assembly.refuseEnd.depth_eq fun _ => h)
    fun _ => Assembly.refuseEnd.bind fun _ => a

theorem SameFrom.nullableTypeOf : SameFrom depth (nullableTypeOf p) (nullableTypeOf q) :=
  .after (plain_peekIs .bracketOpen) fun _ => .ite ((h.listTypeOf a).andThen (listTypeOfAssembly a) _) (.refl _)

theorem SameFrom.typeReferenceOf : SameFrom depth (typeReferenceOf p) (typeReferenceOf q) :=
  (h.nullableTypeOf a).andThen (nullableTypeOfAssembly a) _

end

theorem sameFrom_typeReferenceWithin (room : Nat) :
    SameFrom (maxDepth - room) (typeReferenceWithin (room + 1)) (typeReferenceWithin room) := by
  induction room with
  | zero => exact sameFrom_tooDeep _
  | succ room ih => exact .nested_of_room (ih.typeReferenceOf (typeReferenceWithinAssembly (room + 1)))

/-- One level deeper, type references are parsed as they are here. -/
theorem typeReference_eq : typeReference = nested (typeReferenceOf typeReference) :=
  (sameFrom_typeReferenceWithin maxDepth).eq.symm

/-! ## Selection sets -/

section

variable {depth : Nat} {p q : Parser SelectionSet} (h : SameFrom depth p q) (a : Assembly p)

include h a

theorem SameFrom.fieldOf : SameFrom depth (fieldOf p) (fieldOf q) :=
  (SameFrom.refl fieldHead).bind fieldHeadAssembly.depth_eq fun _ =>
    .after (plain_peekIs .braceOpen) fun _ => .ite (h.andThen a _) (.refl _)

theorem SameFrom.inlineFragmentOf : SameFrom depth (inlineFragmentOf p) (inlineFragmentOf q) :=
  .after (plain_expect .ellipsis) fun _ => .after plain_optionalTypeCondition fun _ =>
    (SameFrom.refl optionalDirectives).bind optionalDirectivesAssembly.depth_eq fun _ => h.andThen a _

theorem SameFrom.selectionOf : SameFrom depth (selectionOf p) (selectionOf q) :=
  .after (plain_peekIs .ellipsis) fun _ => .ite
    (.after plain_startsInlineFragment fun _ =>
      .ite ((h.inlineFragmentOf a).andThen (inlineFragmentOfAssembly a) _) (.refl _))
    ((h.fieldOf a).andThen (fieldOfAssembly a) _)

theorem SameFrom.selectionSetOf : SameFrom depth (selectionSetOf (Parser.selectionOf p))
    (selectionSetOf (Parser.selectionOf q)) :=
  ((h.selectionOf a).enclosedSome (selectionOfAssembly a) .selectionSet).andThen
    (enclosedSomeAssembly .selectionSet (selectionOfAssembly a)) _

end

theorem sameFrom_selectionSetWithin (room : Nat) :
    SameFrom (maxDepth - room) (selectionSetWithin (room + 1)) (selectionSetWithin room) := by
  induction room with
  | zero => exact sameFrom_tooDeep _
  | succ room ih => exact .nested_of_room (ih.selectionSetOf (selectionSetWithinAssembly (room + 1)))

/-- One level deeper, selection sets are parsed as they are here. -/
theorem selectionSet_eq : selectionSet = nested (selectionSetOf selection) :=
  (sameFrom_selectionSetWithin maxDepth).eq.symm

end Parser

end GraphQLSyntax
