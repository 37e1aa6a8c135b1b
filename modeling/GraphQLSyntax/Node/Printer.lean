import GraphQLSyntax.Node.Definition
import GraphQLSyntax.Number.FloatText
import GraphQLSyntax.StringLiteral.Quoted

/-!
# Canonical text of nodes

Every node is printed in one way, which its spans have no part in. Block strings are printed as quoted
literals.
-/

set_option autoImplicit false

namespace GraphQLSyntax

def Name.print (n : Name) : List Char := n.value.toList

def Variable.print (v : Variable) : List Char := '$' :: v.name.print

def IntValue.print (v : IntValue) : List Char := (toString v.value).toList

/-- A float always keeps a fraction or an exponent, so it never reads back as an integer. -/
def FloatValue.print (v : FloatValue) : List Char := (FloatForm.canonical.write v.value).toList

def StringValue.print (v : StringValue) : List Char := encodeQuoted v.value.toList

def BooleanValue.print (v : BooleanValue) : List Char :=
  if v.value then ['t', 'r', 'u', 'e'] else ['f', 'a', 'l', 's', 'e']

def NullValue.print (_ : NullValue) : List Char := ['n', 'u', 'l', 'l']

def EnumValue.print (v : EnumValue) : List Char := v.value.toList

def commaSeparated (texts : List (List Char)) : List Char :=
  [',', ' '].intercalate texts

def labelled (name : Name) (text : List Char) : List Char :=
  name.print ++ [':', ' '] ++ text

mutual

def Value.print : Value → List Char
  | .boolean v => v.print
  | .enum v => v.print
  | .float v => v.print
  | .int v => v.print
  | .list v => v.print
  | .null v => v.print
  | .object v => v.print
  | .string v => v.print
  | .reference v => v.print

def ListValue.print : ListValue → List Char
  | ⟨values, _⟩ => ['['] ++ commaSeparated (Value.printAll values) ++ [']']

def ObjectValue.print : ObjectValue → List Char
  | ⟨fields, _⟩ => ['\x7b'] ++ commaSeparated (ObjectField.printAll fields) ++ ['\x7d']

def ObjectField.print : ObjectField → List Char
  | ⟨name, value, _⟩ => labelled name value.print

def Value.printAll : List Value → List (List Char)
  | [] => []
  | v :: vs => v.print :: Value.printAll vs

def ObjectField.printAll : List ObjectField → List (List Char)
  | [] => []
  | f :: fs => f.print :: ObjectField.printAll fs

end

def NamedType.print (t : NamedType) : List Char := t.name.print

mutual

def TypeReference.print : TypeReference → List Char
  | .list t => t.print
  | .named t => t.print
  | .nonNull t => t.print

def ListType.print : ListType → List Char
  | ⟨item, _⟩ => ['['] ++ item.print ++ [']']

def NonNullType.print : NonNullType → List Char
  | ⟨inner, _⟩ => inner.print ++ ['!']

def NullableType.print : NullableType → List Char
  | .list t => t.print
  | .named t => t.print

end

def Argument.print (a : Argument) : List Char := labelled a.name a.value.print

/-- Arguments in parentheses. No arguments have none. -/
def Argument.printAll (arguments : List Argument) : List Char :=
  if arguments.isEmpty then []
  else ['('] ++ commaSeparated (arguments.map print) ++ [')']

def Directive.print (d : Directive) : List Char :=
  ['@'] ++ d.name.print ++ Argument.printAll d.arguments

/-- Directives with a space before each. -/
def Directive.printAll (directives : List Directive) : List Char :=
  directives.flatMap fun d => ' ' :: d.print

def Alias.print (a : Alias) : List Char := a.name.print ++ [':']

def TypeCondition.print (t : TypeCondition) : List Char := ['o', 'n', ' '] ++ t.namedType.print

def FragmentSpread.print (s : FragmentSpread) : List Char :=
  ['.', '.', '.'] ++ s.name.print ++ Directive.printAll s.directives

def Field.printHead (responseAlias : Option Alias) (name : Name) (arguments : List Argument)
    (directives : List Directive) : List Char :=
  (match responseAlias with
    | some a => a.print ++ [' ']
    | none => []) ++
  name.print ++ Argument.printAll arguments ++ Directive.printAll directives

def InlineFragment.printHead (typeCondition : Option TypeCondition) (directives : List Directive) :
    List Char :=
  ['.', '.', '.'] ++
  (match typeCondition with
    | some t => ' ' :: t.print
    | none => []) ++
  Directive.printAll directives

mutual

def SelectionSet.print : SelectionSet → List Char
  | ⟨selections, _⟩ =>
    ['\x7b', ' '] ++ [' '].intercalate (Selection.printAll selections) ++ [' ', '\x7d']

def Selection.print : Selection → List Char
  | .field s => s.print
  | .fragmentSpread s => s.print
  | .inlineFragment s => s.print

def Field.print : Field → List Char
  | ⟨responseAlias, name, arguments, directives, selectionSet, _⟩ =>
    Field.printHead responseAlias name arguments directives ++
      SelectionSet.printOptional selectionSet

def InlineFragment.print : InlineFragment → List Char
  | ⟨typeCondition, directives, selectionSet, _⟩ =>
    InlineFragment.printHead typeCondition directives ++ [' '] ++ selectionSet.print

/-- A selection set after a space, if there is one. -/
def SelectionSet.printOptional : Option SelectionSet → List Char
  | none => []
  | some s => ' ' :: s.print

def Selection.printAll : List Selection → List (List Char)
  | [] => []
  | s :: ss => s.print :: Selection.printAll ss

end

def VariableDefinition.print (d : VariableDefinition) : List Char :=
  d.declared.print ++ [':', ' '] ++ d.type.print ++
    match d.defaultValue with
    | some v => [' ', '=', ' '] ++ v.print
    | none => []

def VariableDefinition.printAll (definitions : List VariableDefinition) : List Char :=
  ['('] ++ commaSeparated (definitions.map print) ++ [')']

def OperationDefinition.print (o : OperationDefinition) : List Char :=
  (if o.isShorthand then []
    else
      o.kind.text.toList ++
      (match o.name with
        | some name => ' ' :: name.print
        | none => []) ++
      (if o.variableDefinitions.isEmpty then []
        else VariableDefinition.printAll o.variableDefinitions) ++
      Directive.printAll o.directives ++ [' ']) ++
  o.selectionSet.print

def FragmentDefinition.print (f : FragmentDefinition) : List Char :=
  "fragment ".toList ++ f.name.print ++ [' '] ++ f.typeCondition.print ++
    Directive.printAll f.directives ++ [' '] ++ f.selectionSet.print

def Definition.print : Definition → List Char
  | .fragment d => d.print
  | .operation d => d.print

/-- Definitions with an empty line between them. -/
def Document.print (d : Document) : List Char :=
  ['\n', '\n'].intercalate (d.definitions.map Definition.print)

end GraphQLSyntax
