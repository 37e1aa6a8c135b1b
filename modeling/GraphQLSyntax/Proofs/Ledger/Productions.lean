import GraphQLSyntax.Parse
import GraphQLSyntax.Proofs.Ledger.Assembly

/-!
# The ledgers of all productions

Every production is shown to be put together from parsers that leave what they enter and close what they open.
-/

set_option autoImplicit false

namespace GraphQLSyntax

namespace Parser

variable {α β : Type}

/-! ## What productions have in common -/

def Assembly.map {p : Parser α} (a : Assembly p) (f : α → β) : Assembly (do return f (← p)) :=
  a.bind fun x => .plain (.pure (f x))

def Assembly.ite {p q : Parser α} {c : Prop} [decidable : Decidable c] (yes : Assembly p) (no : Assembly q) :
    Assembly (if c then p else q) :=
  match decidable with
  | .isTrue _ => yes
  | .isFalse _ => no

/-- A node gets its span when its last token was consumed. -/
def Assembly.spanned {p : Parser α} (a : Assembly p) (first : Span) (f : α → Span → β) :
    Assembly (do
      let x ← p
      return f x (← spanFrom first)) :=
  a.bind fun _ => .plain ((plain_spanFrom first).map _)

theorem plain_hasMore (e : Enclosure) : Plain (hasMore e) :=
  (plain_peekIs e.closing).bind fun _ => .ite (.pure false) (Plain.isAtEnd.map _)

theorem plain_expectEnd : Plain expectEnd := by
  refine Plain.isAtEnd.bind fun atEnd => ?_
  cases atEnd with
  | true => exact .pure ()
  | false => exact plain_unexpected _

def collectAssembly {more : Parser Bool} {item : Parser α} (hMore : Plain more) (a : Assembly item) :
    (tokens : List Token) → (items : List α) → Assembly (collect more item tokens items)
  | [], _ => (Assembly.plain hMore).bind fun _ => .ite (.plain (.pure _)) (.plain (.pure _))
  | _ :: tokens, items =>
    (Assembly.plain hMore).bind fun _ => .ite
      (a.bind fun i => collectAssembly hMore a tokens (i :: items)) (.plain (.pure _))

def repeatWhileAssembly {more : Parser Bool} {item : Parser α} (hMore : Plain more) (a : Assembly item) :
    Assembly (repeatWhile more item) :=
  (Assembly.plain .get).bind fun s => collectAssembly hMore a s.stream.toList []

/-! ## Enclosures -/

theorem enclosed_eq_within (e : Enclosure) (item : Parser α) :
    enclosed e item = within e (fun _ => repeatWhile (hasMore e) item)
      fun opening items => do return (items, ← spanFrom opening) := rfl

/-- The items of an enclosure that is refused, behind its closing punctuator, if it has none. -/
def someItems (e : Enclosure) (item : Parser α) (opening : Span) : Parser (List α) := do
  if ← peekIs e.closing then
    let _ ← next
    throw (e.emptyError (← spanFrom opening))
  repeatWhile (hasMore e) item

theorem enclosedSome_eq_within (e : Enclosure) (item : Parser α) :
    enclosedSome e item = within e (someItems e item) fun opening items => do return (items, ← spanFrom opening) := by
  unfold enclosedSome within someItems
  refine congrArg _ (funext fun opening => ?_)
  simp only [bind_assoc]
  refine congrArg _ (funext fun closes => ?_)
  cases closes with
  | true => simp only [if_true, bind_assoc]
  | false => rfl

theorem plain_itemsAndSpan (opening : Span) (items : List α) : Plain (do return (items, ← spanFrom opening)) :=
  (plain_spanFrom opening).map _

def enclosedAssembly (e : Enclosure) {item : Parser α} (a : Assembly item) : Assembly (enclosed e item) :=
  .enclosure e (enclosed_eq_within e item) (fun _ => repeatWhileAssembly (plain_hasMore e) a) plain_itemsAndSpan

def someItemsAssembly (e : Enclosure) {item : Parser α} (a : Assembly item) (opening : Span) :
    Assembly (someItems e item opening) :=
  (Assembly.plain (plain_peekIs e.closing)).bind fun _ => .ite
    ((Assembly.plain .next).bind fun _ => (Assembly.plain (plain_spanFrom opening)).bind fun _ =>
      (Assembly.plain (.throw _)).bind fun _ => repeatWhileAssembly (plain_hasMore e) a)
    (repeatWhileAssembly (plain_hasMore e) a)

def enclosedSomeAssembly (e : Enclosure) {item : Parser α} (a : Assembly item) : Assembly (enclosedSome e item) :=
  .enclosure e (enclosedSome_eq_within e item) (someItemsAssembly e a) plain_itemsAndSpan

/-! ## Values -/

theorem plain_reference : Plain reference :=
  (plain_expect .dollar).bind fun dollar => plain_name.bind fun _ => (plain_spanFrom dollar.span).map _

theorem plain_booleanNullOrEnum : Plain booleanNullOrEnum := by
  refine Plain.next.bind fun token => ?_
  split
  · exact .pure _
  · exact .pure _
  · exact .pure _
  · exact .throw _

theorem plain_intValue : Plain intValue := by
  refine Plain.next.bind fun token => ?_
  split
  · split
    · exact .pure _
    · exact .throw _
  · exact .throw _

theorem plain_floatValue : Plain floatValue := by
  refine Plain.next.bind fun token => ?_
  split
  · split
    · exact .pure _
    · exact .throw _
  · exact .throw _

theorem plain_stringValue : Plain stringValue := by
  refine Plain.next.bind fun token => ?_
  split
  · split
    · exact .pure _
    · exact .throw _
  · exact .throw _

def listValueOfAssembly {item : Parser Value} (a : Assembly item) : Assembly (listValueOf item) :=
  (enclosedAssembly .listValue a).map _

def objectFieldOfAssembly {item : Parser Value} (a : Assembly item) : Assembly (objectFieldOf item) :=
  (Assembly.plain plain_name).bind fun name => (Assembly.plain (plain_expect .colon)).bind fun _ =>
    a.spanned name.span _

def objectValueOfAssembly {item : Parser Value} (a : Assembly item) : Assembly (objectValueOf item) :=
  (enclosedAssembly .objectValue (objectFieldOfAssembly a)).map _

theorem plain_referenceIn (context : ValueContext) :
    Plain (match context.constantName? with
      | some place => do throw ⟨"variables are not allowed in " ++ place, ← peekSpan, .invalidSyntax, []⟩
      | none => do return Value.reference (← reference)) := by
  split
  · exact plain_throwHere _
  · exact plain_reference.map _

def valueOfAssembly (context : ValueContext) {item : Parser Value} (a : Assembly item) :
    Assembly (valueOf context item) :=
  (Assembly.plain plain_peekKind).bind fun kind =>
    match kind with
    | some (.punctuator .dollar) => .plain (plain_referenceIn context)
    | some (.int _) => .plain (plain_intValue.map _)
    | some (.float _) => .plain (plain_floatValue.map _)
    | some (.string _) => .plain (plain_stringValue.map _)
    | some (.boolean _) | some .null | some (.name _) => .plain plain_booleanNullOrEnum
    | some (.punctuator .bracketOpen) => (listValueOfAssembly a).map _
    | some (.punctuator .braceOpen) => (objectValueOfAssembly a).map _
    | none | some .endOfInput | some (.error _ _) | some (.punctuator .bang) | some (.punctuator .parenOpen)
    | some (.punctuator .parenClose) | some (.punctuator .ellipsis) | some (.punctuator .colon)
    | some (.punctuator .equals) | some (.punctuator .atSign) | some (.punctuator .bracketClose)
    | some (.punctuator .braceClose) => .plain (plain_unexpected _)

def valueWithinAssembly (context : ValueContext) : (room : Nat) → Assembly (valueWithin context room)
  | 0 => .plain plain_tooDeep
  | room + 1 => .nested (valueOfAssembly context (valueWithinAssembly context room))

def valueAssembly (context : ValueContext) : Assembly (value context) := valueWithinAssembly context maxDepth

/-! ## Type references -/

theorem plain_namedType : Plain namedType := by
  refine plain_peekKind.bind fun kind => ?_
  cases kind == some .null with
  | true => exact plain_peekSpan.bind fun _ => (Plain.throw _).bind fun _ => plain_name.map _
  | false => exact plain_name.map _

theorem listTypeOf_eq_within (item : Parser TypeReference) :
    listTypeOf item = within .listType (fun _ => do refuseEnd; item)
      fun opening item => do return ⟨item, ← spanFrom opening⟩ := by
  unfold listTypeOf within
  simp only [bind_assoc]

def listTypeOfAssembly {item : Parser TypeReference} (a : Assembly item) : Assembly (listTypeOf item) :=
  .enclosure .listType (listTypeOf_eq_within item) (fun _ => Assembly.refuseEnd.bind fun _ => a)
    fun opening _ => (plain_spanFrom opening).map _

def nullableTypeOfAssembly {item : Parser TypeReference} (a : Assembly item) : Assembly (nullableTypeOf item) :=
  (Assembly.plain (plain_peekIs .bracketOpen)).bind fun _ =>
    .ite ((listTypeOfAssembly a).map _) (.plain (plain_namedType.map _))

theorem plain_finishNonNull (inner : NullableType) : Plain (finishNonNull inner) :=
  (plain_expect .bang).bind fun _ => (plain_spanFrom inner.span).map _

def typeReferenceOfAssembly {item : Parser TypeReference} (a : Assembly item) : Assembly (typeReferenceOf item) :=
  (nullableTypeOfAssembly a).bind fun t => .plain ((plain_peekIs .bang).bind fun _ =>
    .ite ((plain_finishNonNull t).map _) (.pure _))

def typeReferenceWithinAssembly : (room : Nat) → Assembly (typeReferenceWithin room)
  | 0 => .plain plain_tooDeep
  | room + 1 => .nested (typeReferenceOfAssembly (typeReferenceWithinAssembly room))

def typeReferenceAssembly : Assembly typeReference := typeReferenceWithinAssembly maxDepth

def listTypeAssembly : Assembly listType := listTypeOfAssembly typeReferenceAssembly

def nonNullTypeAssembly : Assembly nonNullType :=
  .nested ((nullableTypeOfAssembly typeReferenceAssembly).bind fun t => .plain (plain_finishNonNull t))

/-! ## Arguments and directives -/

def argumentAssembly : Assembly argument :=
  (Assembly.plain plain_name).bind fun name => (Assembly.plain (plain_expect .colon)).bind fun _ =>
    (valueAssembly .argument).spanned name.span _

def argumentsAssembly (e : Enclosure) : Assembly (arguments e) := (enclosedSomeAssembly e argumentAssembly).map _

/-- A list that is there if a punctuator comes next. -/
def optionalListAssembly {p : Parser (List α)} (q : Punctuator) (a : Assembly p) :
    Assembly (do if ← peekIs q then p else return []) :=
  (Assembly.plain (plain_peekIs q)).bind fun _ => .ite a (.plain (.pure []))

def optionalArgumentsAssembly (e : Enclosure) : Assembly (optionalArguments e) :=
  optionalListAssembly .parenOpen (argumentsAssembly e)

def directiveAssembly : Assembly directive :=
  (Assembly.plain (plain_expect .atSign)).bind fun sign => (Assembly.plain plain_name).bind fun _ =>
    (optionalArgumentsAssembly .directiveArguments).spanned sign.span _

def directivesAssembly : Assembly directives :=
  directiveAssembly.bind fun _ => (repeatWhileAssembly (plain_peekIs .atSign) directiveAssembly).map _

def optionalDirectivesAssembly : Assembly optionalDirectives := optionalListAssembly .atSign directivesAssembly

/-! ## Fragments and fields -/

theorem plain_finishAlias (name : Name) : Plain (finishAlias name) :=
  (plain_expect .colon).bind fun _ => (plain_spanFrom name.span).map _

theorem plain_responseAlias : Plain responseAlias := plain_name.bind plain_finishAlias

theorem plain_fragmentName : Plain fragmentName := by
  refine (plain_peekIsWord "on").bind fun isOn => ?_
  cases isOn with
  | true => exact plain_peekSpan.bind fun _ => (Plain.throw _).bind fun _ => plain_name
  | false => exact plain_name

theorem plain_typeCondition : Plain typeCondition :=
  (plain_expectWord "on").bind fun on => plain_namedType.bind fun _ => (plain_spanFrom on).map _

theorem plain_optionalTypeCondition : Plain optionalTypeCondition :=
  (plain_peekIsWord "on").bind fun _ => .ite (plain_typeCondition.map _) (.pure none)

def fragmentSpreadAssembly : Assembly fragmentSpread :=
  (Assembly.plain (plain_expect .ellipsis)).bind fun dots => (Assembly.plain plain_fragmentName).bind fun _ =>
    optionalDirectivesAssembly.spanned dots.span _

theorem plain_fieldName : Plain fieldName :=
  plain_name.bind fun first => (plain_peekIs .colon).bind fun _ =>
    .ite ((plain_finishAlias first).bind fun _ => plain_name.map _) (.pure _)

def fieldHeadAssembly : Assembly fieldHead :=
  (Assembly.plain plain_fieldName).bind fun _ => (optionalArgumentsAssembly .fieldArguments).bind fun _ =>
    optionalDirectivesAssembly.spanned _ _

def fieldOfAssembly {set : Parser SelectionSet} (a : Assembly set) : Assembly (fieldOf set) :=
  fieldHeadAssembly.bind fun head => (Assembly.plain (plain_peekIs .braceOpen)).bind fun _ =>
    .ite (a.spanned head.span _) (.plain (.pure _))

/-- An inline fragment up to its selection set. -/
def inlineFragmentHead : Parser (Span × Option TypeCondition × List Directive) := do
  let dots ← expect .ellipsis
  let typeCondition ← optionalTypeCondition
  let directives ← optionalDirectives
  return (dots.span, typeCondition, directives)

theorem inlineFragmentOf_eq (set : Parser SelectionSet) :
    inlineFragmentOf set = (do
      let (start, typeCondition, directives) ← inlineFragmentHead
      let selectionSet ← set
      return ⟨typeCondition, directives, selectionSet, ← spanFrom start⟩) := by
  unfold inlineFragmentOf inlineFragmentHead
  simp only [bind_assoc, pure_bind]

def inlineFragmentHeadAssembly : Assembly inlineFragmentHead :=
  (Assembly.plain (plain_expect .ellipsis)).bind fun _ => (Assembly.plain plain_optionalTypeCondition).bind fun _ =>
    optionalDirectivesAssembly.map _

def inlineFragmentOfAssembly {set : Parser SelectionSet} (a : Assembly set) : Assembly (inlineFragmentOf set) :=
  (Assembly.plain (plain_expect .ellipsis)).bind fun dots => (Assembly.plain plain_optionalTypeCondition).bind fun _ =>
    optionalDirectivesAssembly.bind fun _ => a.spanned dots.span _

theorem plain_startsInlineFragment : Plain startsInlineFragment := by
  refine (plain_peekKindNth 1).bind fun kind => ?_
  split
  · exact .pure true
  · exact .pure true
  · exact .ite ((plain_peekKindNth 2).map _) (.pure false)
  · exact .pure false

def selectionOfAssembly {set : Parser SelectionSet} (a : Assembly set) : Assembly (selectionOf set) :=
  (Assembly.plain (plain_peekIs .ellipsis)).bind fun _ => .ite
    ((Assembly.plain plain_startsInlineFragment).bind fun _ =>
      .ite ((inlineFragmentOfAssembly a).map _) (fragmentSpreadAssembly.map _))
    ((fieldOfAssembly a).map _)

def selectionSetOfAssembly {selection : Parser Selection} (a : Assembly selection) :
    Assembly (selectionSetOf selection) :=
  (enclosedSomeAssembly .selectionSet a).map _

def selectionSetWithinAssembly : (room : Nat) → Assembly (selectionSetWithin room)
  | 0 => .plain plain_tooDeep
  | room + 1 => .nested (selectionSetOfAssembly (selectionOfAssembly (selectionSetWithinAssembly room)))

def selectionSetAssembly : Assembly selectionSet := selectionSetWithinAssembly maxDepth

def selectionAssembly : Assembly selection := selectionOfAssembly selectionSetAssembly

/-! ## Definitions -/

def optionalDefaultAssembly : Assembly optionalDefault :=
  (Assembly.plain (plain_peekIs .equals)).bind fun _ =>
    .ite ((Assembly.plain .next).bind fun _ => (valueAssembly .variableDefault).map _) (.plain (.pure none))

def variableDefinitionAssembly : Assembly variableDefinition :=
  (Assembly.plain plain_reference).bind fun declared => (Assembly.plain (plain_expect .colon)).bind fun _ =>
    typeReferenceAssembly.bind fun _ => optionalDefaultAssembly.spanned declared.span _

def variableDefinitionsAssembly : Assembly variableDefinitions :=
  (enclosedSomeAssembly .variableDefinitions variableDefinitionAssembly).map _

theorem plain_optionalName : Plain optionalName :=
  plain_peekKind.bind fun _ => .ite (plain_name.map _) (.pure none)

theorem plain_operationType : Plain operationType := by
  refine plain_peekKind.bind fun kind => ?_
  split
  · split
    · exact Plain.next.map _
    · exact plain_unexpected _
  · exact plain_unexpected _

def operationDefinitionAssembly : Assembly operationDefinition :=
  (Assembly.plain (plain_peekIs .braceOpen)).bind fun _ => .ite (selectionSetAssembly.map _)
    ((Assembly.plain plain_operationType).bind fun (_, start) => (Assembly.plain plain_optionalName).bind fun _ =>
      (optionalListAssembly .parenOpen variableDefinitionsAssembly).bind fun _ =>
        optionalDirectivesAssembly.bind fun _ => selectionSetAssembly.spanned start _)

def fragmentDefinitionAssembly : Assembly fragmentDefinition :=
  (Assembly.plain (plain_expectWord "fragment")).bind fun start => (Assembly.plain plain_fragmentName).bind fun _ =>
    (Assembly.plain plain_typeCondition).bind fun _ => optionalDirectivesAssembly.bind fun _ =>
      selectionSetAssembly.spanned start _

theorem plain_peekTypeSystem : Plain peekTypeSystem := by
  refine plain_peekKind.bind fun first => (plain_peekKindNth _).bind fun kind => ?_
  split
  · exact .pure _
  · exact .pure none

theorem plain_startsOperation : Plain startsOperation := by
  refine plain_peekKind.bind fun kind => ?_
  split
  · exact .pure true
  · exact .pure _
  · exact .pure false

theorem plain_refuseDefinition (found? : Option DefinitionKind) :
    Plain (match found? with
      | some found => do
        throw ⟨found.description ++ " not allowed in executable document", ← peekSpan, .wrongDocumentKind found, []⟩
      | none => unexpected .definition : Parser Definition) := by
  split
  · exact plain_throwHere _
  · exact plain_unexpected _

def definitionAssembly : Assembly definition :=
  (Assembly.plain plain_startsOperation).bind fun _ => .ite (operationDefinitionAssembly.map _)
    ((Assembly.plain (plain_peekIsWord "fragment")).bind fun _ => .ite (fragmentDefinitionAssembly.map _)
      (.plain (plain_peekTypeSystem.bind plain_refuseDefinition)))

def documentAssembly : Assembly document :=
  definitionAssembly.bind fun _ => (repeatWhileAssembly (Plain.isAtEnd.map _) definitionAssembly).map _

def constructAssembly : (symbol : GrammarSymbol) → Assembly (construct symbol)
  | .document => documentAssembly.map _
  | .definition => definitionAssembly.map _
  | .operationDefinition => operationDefinitionAssembly.map _
  | .operationType => .plain (plain_operationType.map _)
  | .variableDefinitions => variableDefinitionsAssembly.map _
  | .variableDefinition => variableDefinitionAssembly.map _
  | .selectionSet => selectionSetAssembly.map _
  | .selection => selectionAssembly.map _
  | .field => (fieldOfAssembly selectionSetAssembly).map _
  | .responseAlias => .plain (plain_responseAlias.map _)
  | .arguments => (argumentsAssembly .fieldArguments).map _
  | .argument => argumentAssembly.map _
  | .directives => directivesAssembly.map _
  | .directive => directiveAssembly.map _
  | .fragmentSpread => fragmentSpreadAssembly.map _
  | .fragmentName => .plain (plain_fragmentName.map _)
  | .inlineFragment => (inlineFragmentOfAssembly selectionSetAssembly).map _
  | .fragmentDefinition => fragmentDefinitionAssembly.map _
  | .typeCondition => .plain (plain_typeCondition.map _)
  | .type => typeReferenceAssembly.map _
  | .namedType => .plain (plain_namedType.map _)
  | .listType => listTypeAssembly.map _
  | .nonNullType => nonNullTypeAssembly.map _
  | .value => (valueAssembly .argument).map _
  | .constValue => (valueAssembly .constant).map _
  | .booleanOrNullOrEnum => .plain (plain_booleanNullOrEnum.map _)
  | .reference => .plain (plain_reference.map _)
  | .listValue => (listValueOfAssembly (valueAssembly .argument)).map _
  | .objectValue => (objectValueOfAssembly (valueAssembly .argument)).map _
  | .intValue => .plain (plain_intValue.map _)
  | .floatValue => .plain (plain_floatValue.map _)
  | .stringValue => .plain (plain_stringValue.map _)
  | .name => .plain (plain_name.map _)

def wholeAssembly {p : Parser α} (a : Assembly p) : Assembly (whole p) :=
  a.bind fun x => .plain (plain_expectEnd.map fun _ => x)

end Parser

end GraphQLSyntax
