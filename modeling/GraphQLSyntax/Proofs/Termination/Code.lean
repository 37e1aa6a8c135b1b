import GraphQLSyntax.Proofs.Ledger.Routines
import GraphQLSyntax.Proofs.Parsing.Document
import GraphQLSyntax.Proofs.Termination.Unfolding

/-!
# The code of the parsing routines

The code of a routine names the routines that it calls and the loops that it enters. So it is finite whether or not what
it does comes to an end, and it says nothing of how many rounds or levels there may be.
-/

set_option autoImplicit false

namespace GraphQLSyntax

namespace Parser

/-! ## Loops -/

/-- The loops, with what a round of each of them reads. -/
inductive Repetition : Type → Type
  | definitions : Repetition Definition
  | variableDefinitions : Repetition VariableDefinition
  | selections : Repetition Selection
  | directives : Repetition Directive
  | arguments (e : Enclosure) : Repetition Argument
  | listItems (context : ValueContext) : Repetition Value
  | objectFields (context : ValueContext) : Repetition ObjectField

namespace Repetition

/-- Whether there is one more round. -/
def more : {α : Type} → Repetition α → Parser Bool
  | _, definitions => do return !(← isAtEnd)
  | _, variableDefinitions => hasMore .variableDefinitions
  | _, selections => hasMore .selectionSet
  | _, directives => peekIs .atSign
  | _, arguments e => hasMore e
  | _, listItems _ => hasMore .listValue
  | _, objectFields _ => hasMore .objectValue

/-- What is read in a round. -/
def item : {α : Type} → Repetition α → Parser α
  | _, definitions => definition
  | _, variableDefinitions => variableDefinition
  | _, selections => selection
  | _, directives => directive
  | _, arguments _ => argument
  | _, listItems context => value context
  | _, objectFields context => objectFieldOf (value context)

def parser {α : Type} (l : Repetition α) : Parser (List α) := repeatWhile l.more l.item

theorem plain_more {α : Type} (l : Repetition α) : Plain l.more := by
  cases l with
  | definitions => exact Plain.isAtEnd.map _
  | directives => exact plain_peekIs .atSign
  | _ => exact plain_hasMore _

end Repetition

/-! ## Code -/

/-- A parser that neither calls a routine nor enters a loop. -/
inductive Straight : {α : Type} → Parser α → Prop
  | plain {α : Type} {p : Parser α} : Plain p → Straight p
  | openEnclosure (e : Enclosure) : Straight (openEnclosure e)
  | closeEnclosure (e : Enclosure) : Straight (closeEnclosure e)
  | refuseEnd : Straight refuseEnd

/-- What can be called: a routine, or a loop, which calls itself for the rounds to come. -/
inductive Procedure : Type → Type 1
  | routine {α : Type} (r : Routine α) : Procedure α
  | loop {α : Type} (l : Repetition α) : Procedure (List α)

/-- What is done one after the other, and which procedures are called for it. -/
inductive Code : Type → Type 1
  | step {α : Type} {p : Parser α} : Straight p → Code α
  | bind {α β : Type} : Code α → (α → Code β) → Code β
  | nested {α : Type} : Code α → Code α
  | perform {α : Type} : Procedure α → Code α

def Procedure.parser : {α : Type} → Procedure α → Parser α
  | _, routine r => r.parser
  | _, loop l => l.parser

namespace Code

variable {α β : Type}

instance : Monad Code where
  pure a := .step (.plain (.pure a))
  bind := .bind

/-- A step that neither opens nor closes an enclosure. -/
def plain {p : Parser α} (h : Plain p) : Code α := .step (.plain h)

/-- Whether a punctuator comes next. -/
def sees (q : Punctuator) : Code Bool := plain (plain_peekIs q)

def spanSince (start : Span) : Code Span := plain (plain_spanFrom start)

def fail (e : ParseError) : Code α := plain (.throw e)

def call (r : Routine α) : Code α := .perform (.routine r)

def loop (l : Repetition α) : Code (List α) := .perform (.loop l)

/-- What a code comes to if each procedure does what it is there for. -/
def parser : {α : Type} → Code α → Parser α
  | _, @step _ p _ => p
  | _, bind c f => do (f (← c.parser)).parser
  | _, nested c => Parser.nested c.parser
  | _, perform x => x.parser

@[simp] theorem parser_pure (a : α) : (pure a : Code α).parser = pure a := rfl

@[simp] theorem parser_bind (c : Code α) (f : α → Code β) :
    (c >>= f).parser = c.parser >>= fun a => (f a).parser := rfl

@[simp] theorem parser_plain {p : Parser α} (h : Plain p) : (plain h).parser = p := rfl

@[simp] theorem parser_sees (q : Punctuator) : (sees q).parser = peekIs q := rfl

@[simp] theorem parser_spanSince (start : Span) : (spanSince start).parser = spanFrom start := rfl

@[simp] theorem parser_fail (e : ParseError) : (fail e : Code α).parser = throw e := rfl

@[simp] theorem parser_step {p : Parser α} (h : Straight p) : (step h).parser = p := rfl

@[simp] theorem parser_call (r : Routine α) : (call r).parser = r.parser := rfl

@[simp] theorem parser_loop (l : Repetition α) : (loop l).parser = l.parser := rfl

@[simp] theorem parser_ite (b : Prop) [Decidable b] (c d : Code α) :
    (if b then c else d).parser = if b then c.parser else d.parser :=
  apply_ite Code.parser b c d

end Code

open Code

/-! ## What routines have in common -/

section

variable {α : Type}

/-- A list that is there if a punctuator comes next. -/
def optionalListCode (q : Punctuator) (c : Code (List α)) : Code (List α) := do
  if ← sees q then c else return []

def enclosedCode (e : Enclosure) (l : Repetition α) : Code (List α × Span) := do
  let opening ← step (.openEnclosure e)
  let items ← loop l
  step (.closeEnclosure e)
  return (items, ← spanSince opening)

def enclosedSomeCode (e : Enclosure) (l : Repetition α) : Code (List α × Span) := do
  let opening ← step (.openEnclosure e)
  if ← sees e.closing then
    let _ ← plain .next
    fail (e.emptyError (← spanSince opening))
  let items ← loop l
  step (.closeEnclosure e)
  return (items, ← spanSince opening)

def wholeCode (c : Code α) : Code α := do
  let a ← c
  plain plain_expectEnd
  return a

end

def optionalDefaultCode : Code (Option Value) := do
  if ← sees .equals then
    let _ ← plain .next
    return some (← call (.value .variableDefault))
  else return none

def constructCode : GrammarSymbol → Code Construct
  | .document => return .document (← call .document)
  | .definition => return .definition (← call .definition)
  | .operationDefinition => return .operationDefinition (← call .operationDefinition)
  | .operationType => return .operationType (← call .operationType).1
  | .variableDefinitions => return .variableDefinitions (← call .variableDefinitions)
  | .variableDefinition => return .variableDefinition (← call .variableDefinition)
  | .selectionSet => return .selectionSet (← call .selectionSet)
  | .selection => return .selection (← call .selection)
  | .field => return .field (← call .field)
  | .responseAlias => return .responseAlias (← call .responseAlias)
  | .arguments => return .arguments (← call (.arguments .fieldArguments))
  | .argument => return .argument (← call .argument)
  | .directives => return .directives (← call .directives)
  | .directive => return .directive (← call .directive)
  | .fragmentSpread => return .fragmentSpread (← call .fragmentSpread)
  | .fragmentName => return .fragmentName (← call .fragmentName)
  | .inlineFragment => return .inlineFragment (← call .inlineFragment)
  | .fragmentDefinition => return .fragmentDefinition (← call .fragmentDefinition)
  | .typeCondition => return .typeCondition (← call .typeCondition)
  | .type => return .type (← call .typeReference)
  | .namedType => return .namedType (← call .namedType)
  | .listType => return .listType (← call .listType)
  | .nonNullType => return .nonNullType (← call .nonNullType)
  | .value => return .value (← call (.value .argument))
  | .constValue => return .constValue (← call (.value .constant))
  | .booleanOrNullOrEnum => return .booleanOrNullOrEnum (← call .booleanNullOrEnum)
  | .reference => return .reference (← call .reference)
  | .listValue => return .listValue (← call (.listValue .argument))
  | .objectValue => return .objectValue (← call (.objectValue .argument))
  | .intValue => return .intValue (← call .intValue)
  | .floatValue => return .floatValue (← call .floatValue)
  | .stringValue => return .stringValue (← call .stringValue)
  | .name => return .name (← call .name)

/-! ## The code of every procedure -/

def Routine.code : {α : Type} → Routine α → Code α
  | _, whole symbol => wholeCode (constructCode symbol)
  | _, wholeDocument => wholeCode (call .document)
  | _, document => do
    let first ← call .definition
    let others ← loop .definitions
    let last := others.getLast?.getD first
    return ⟨first :: others, first.span.join last.span⟩
  | _, definition => do
    if ← plain plain_startsOperation then return .operation (← call .operationDefinition)
    if ← plain (plain_peekIsWord "fragment") then return .fragment (← call .fragmentDefinition)
    plain (plain_refuseDefinition (← plain plain_peekTypeSystem))
  | _, operationDefinition => do
    if ← sees .braceOpen then
      let selectionSet ← call .selectionSet
      return ⟨.query, none, [], [], selectionSet, selectionSet.span⟩
    let (kind, start) ← call .operationType
    let name ← plain plain_optionalName
    let variableDefinitions ← optionalListCode .parenOpen (call .variableDefinitions)
    let directives ← call .optionalDirectives
    let selectionSet ← call .selectionSet
    return ⟨kind, name, variableDefinitions, directives, selectionSet, ← spanSince start⟩
  | _, operationType => plain plain_operationType
  | _, variableDefinitions => return (← enclosedSomeCode .variableDefinitions .variableDefinitions).1
  | _, variableDefinition => do
    let declared ← call .reference
    let _ ← plain (plain_expect .colon)
    let type ← call .typeReference
    let defaultValue ← optionalDefaultCode
    return ⟨declared, type, defaultValue, ← spanSince declared.span⟩
  | _, fragmentDefinition => do
    let start ← plain (plain_expectWord "fragment")
    let name ← call .fragmentName
    let typeCondition ← call .typeCondition
    let directives ← call .optionalDirectives
    let selectionSet ← call .selectionSet
    return ⟨name, typeCondition, directives, selectionSet, ← spanSince start⟩
  | _, fragmentName => plain plain_fragmentName
  | _, typeCondition => plain plain_typeCondition
  | _, selectionSet => .nested (call .selectionSetBody)
  | _, selectionSetBody => do
    let (selections, span) ← enclosedSomeCode .selectionSet .selections
    return ⟨selections, span⟩
  | _, selection => do
    if ← sees .ellipsis then
      if ← plain plain_startsInlineFragment then return .inlineFragment (← call .inlineFragment)
      else return .fragmentSpread (← call .fragmentSpread)
    else return .field (← call .field)
  | _, field => do
    let head ← call .fieldHead
    if ← sees .braceOpen then
      let selectionSet ← call .selectionSet
      return { head with selectionSet := some selectionSet, span := ← spanSince head.span }
    else return head
  | _, fieldHead => do
    let (alias?, fieldName) ← plain plain_fieldName
    let start := match alias? with
      | some a => a.span
      | none => fieldName.span
    let arguments ← call (.optionalArguments .fieldArguments)
    let directives ← call .optionalDirectives
    return ⟨alias?, fieldName, arguments, directives, none, ← spanSince start⟩
  | _, responseAlias => plain plain_responseAlias
  | _, fragmentSpread => do
    let dots ← plain (plain_expect .ellipsis)
    let name ← call .fragmentName
    let directives ← call .optionalDirectives
    return ⟨name, directives, ← spanSince dots.span⟩
  | _, inlineFragment => do
    let (start, condition?, list) ← call .inlineFragmentHead
    let selectionSet ← call .selectionSet
    return ⟨condition?, list, selectionSet, ← spanSince start⟩
  | _, inlineFragmentHead => do
    let dots ← plain (plain_expect .ellipsis)
    let typeCondition ← plain plain_optionalTypeCondition
    let directives ← call .optionalDirectives
    return (dots.span, typeCondition, directives)
  | _, directives => do
    let first ← call .directive
    return first :: (← loop .directives)
  | _, optionalDirectives => optionalListCode .atSign (call .directives)
  | _, directive => do
    let sign ← plain (plain_expect .atSign)
    let name ← call .name
    let arguments ← call (.optionalArguments .directiveArguments)
    return ⟨name, arguments, ← spanSince sign.span⟩
  | _, arguments e => return (← enclosedSomeCode e (.arguments e)).1
  | _, optionalArguments e => optionalListCode .parenOpen (call (.arguments e))
  | _, argument => do
    let name ← call .name
    let _ ← plain (plain_expect .colon)
    let value ← call (.value .argument)
    return ⟨name, value, ← spanSince name.span⟩
  | _, typeReference => .nested (call .typeReferenceBody)
  | _, typeReferenceBody => do
    let t ← call .nullableType
    if ← sees .bang then return .nonNull (← plain (plain_finishNonNull t))
    else return .ofNullable t
  | _, nullableType => do
    if ← sees .bracketOpen then return .list (← call .listType)
    else return .named (← call .namedType)
  | _, namedType => plain plain_namedType
  | _, listType => do
    let opening ← step (.openEnclosure .listType)
    step .refuseEnd
    let item ← call .typeReference
    step (.closeEnclosure .listType)
    return ⟨item, ← spanSince opening⟩
  | _, nonNullType => .nested do plain (plain_finishNonNull (← call .nullableType))
  | _, value context => .nested (call (.valueBody context))
  | _, valueBody context => do
    match ← plain plain_peekKind with
    | some (.punctuator .dollar) => plain (plain_referenceIn context)
    | some (.int _) => return .int (← call .intValue)
    | some (.float _) => return .float (← call .floatValue)
    | some (.string _) => return .string (← call .stringValue)
    | some (.boolean _) | some .null | some (.name _) => call .booleanNullOrEnum
    | some (.punctuator .bracketOpen) => return .list (← call (.listValue context))
    | some (.punctuator .braceOpen) => return .object (← call (.objectValue context))
    | _ => plain (plain_unexpected .value)
  | _, reference => plain plain_reference
  | _, booleanNullOrEnum => plain plain_booleanNullOrEnum
  | _, intValue => plain plain_intValue
  | _, floatValue => plain plain_floatValue
  | _, stringValue => plain plain_stringValue
  | _, listValue context => do
    let (values, span) ← enclosedCode .listValue (.listItems context)
    return ⟨values, span⟩
  | _, objectValue context => do
    let (fields, span) ← enclosedCode .objectValue (.objectFields context)
    return ⟨fields, span⟩
  | _, name => plain plain_name

namespace Repetition

def itemCode : {α : Type} → Repetition α → Code α
  | _, definitions => call .definition
  | _, variableDefinitions => call .variableDefinition
  | _, selections => call .selection
  | _, directives => call .directive
  | _, arguments _ => call .argument
  | _, listItems context => call (.value context)
  | _, objectFields context => do
    let name ← call .name
    let _ ← plain (plain_expect .colon)
    let value ← call (.value context)
    return ⟨name, value, ← spanSince name.span⟩

/-- A round and the loop again, unless it is over. -/
def code {α : Type} (l : Repetition α) : Code (List α) := do
  if ← plain l.plain_more then
    let i ← l.itemCode
    return i :: (← loop l)
  else return []

end Repetition

def Procedure.code : {α : Type} → Procedure α → Code α
  | _, routine r => r.code
  | _, loop l => l.code

/-! ## What the code comes to -/

section

variable {α : Type}

theorem parser_optionalListCode (q : Punctuator) (c : Code (List α)) :
    (optionalListCode q c).parser = do if ← peekIs q then c.parser else return [] := by
  simp only [optionalListCode, parser_bind, parser_sees, parser_ite, parser_pure]

theorem parser_enclosedSomeCode (e : Enclosure) (l : Repetition α) (h : l.more = hasMore e) :
    (enclosedSomeCode e l).parser = enclosedSome e l.item := by
  simp only [enclosedSomeCode, parser_bind, parser_step, parser_sees, parser_spanSince, parser_fail, parser_plain,
    parser_ite, parser_loop, parser_pure, Repetition.parser, h]
  rfl

theorem parser_optionalDefaultCode : optionalDefaultCode.parser = optionalDefault := by
  simp only [optionalDefaultCode, parser_bind, parser_sees, parser_plain, parser_ite, parser_call, parser_pure]
  rfl

/-- Each routine does what its code says. -/
theorem Routine.parser_code (r : Routine α) : r.code.parser = r.parser := by
  cases r with
  | whole symbol => cases symbol <;> rfl
  -- The nested constructs, whose levels are unfolded once.
  | value context => exact (value_eq context).symm
  | selectionSet => exact selectionSet_eq.symm
  | typeReference => exact typeReference_eq.symm
  | inlineFragment => exact (inlineFragmentOf_eq _).symm
  | optionalDirectives => exact parser_optionalListCode _ _
  | optionalArguments e => exact parser_optionalListCode _ _
  | variableDefinitions =>
    simp only [code, parser_bind, parser_enclosedSomeCode _ Repetition.variableDefinitions rfl]
    rfl
  | selectionSetBody =>
    simp only [code, parser_bind, parser_enclosedSomeCode _ Repetition.selections rfl]
    rfl
  | arguments e =>
    simp only [code, parser_bind, parser_enclosedSomeCode _ (Repetition.arguments e) rfl]
    rfl
  | variableDefinition =>
    simp only [code, parser_bind, parser_spanSince, parser_plain, parser_call, parser_pure, parser_optionalDefaultCode]
    rfl
  | operationDefinition =>
    simp only [code, parser_bind, parser_sees, parser_spanSince, parser_plain, parser_ite, parser_call, parser_pure,
      parser_optionalListCode]
    rfl
  | definition | selection | field | typeReferenceBody | nullableType =>
    simp only [code, parser_bind, parser_sees, parser_spanSince, parser_plain, parser_ite, parser_call, parser_pure]
    rfl
  | valueBody context =>
    simp only [code, parser_bind, parser_plain]
    refine congrArg _ (funext fun kind => ?_)
    cases kind with
    | none => rfl
    | some kind =>
      cases kind with
      | punctuator sign => cases sign <;> rfl
      | _ => rfl
  | _ => rfl

namespace Repetition

theorem parser_itemCode (l : Repetition α) : l.itemCode.parser = l.item := by
  cases l <;> rfl

theorem consumes_item (l : Repetition α) : Consumes l.item := by
  cases l with
  | definitions => exact implements_definition.consumes definition_startsWith
  | variableDefinitions => exact implements_variableDefinition.consumes variableDefinition_startsWith
  | selections => exact (implements_selectionOf implements_selectionSet).consumes selection_startsWith
  | directives => exact implements_directive.consumes directive_startsWith
  | arguments e => exact implements_argument.consumes argument_startsWith
  | listItems context => exact (implements_value context).consumes (value_startsWith _)
  | objectFields context => exact (implements_objectFieldOf (implements_value context)).consumes objectField_startsWith

/-- Without any token left, a loop is over. -/
theorem looks_more (l : Repetition α) : ∃ go, Looks l.more go ∧ go [] = false := by
  cases l with
  | definitions => exact ⟨_, looks_notAtEnd, rfl⟩
  | directives => exact ⟨_, looks_peekIs .atSign, rfl⟩
  | variableDefinitions | selections | arguments | listItems | objectFields => exact ⟨_, looks_hasMore _, rfl⟩

theorem parser_eq (l : Repetition α) :
    l.parser = do
      if ← l.more then
        let i ← l.item
        return i :: (← l.parser)
      else return [] := by
  obtain ⟨go, hMore, hStop⟩ := l.looks_more
  exact repeatWhile_eq hMore hStop l.consumes_item

/-- Each loop does what its code says. -/
theorem parser_code (l : Repetition α) : l.code.parser = l.parser := by
  rw [parser_eq]
  simp only [code, parser_bind, parser_plain, parser_ite, parser_loop, parser_pure, parser_itemCode]

end Repetition

theorem Procedure.parser_code (x : Procedure α) : x.code.parser = x.parser := by
  cases x with
  | routine r => exact r.parser_code
  | loop l => exact l.parser_code

end

end Parser

end GraphQLSyntax
