/-!
# Laying out text in lines
-/

set_option autoImplicit false

namespace GraphQLSyntax

def spaces (n : Nat) : String :=
  String.ofList (List.replicate n ' ')

/-- How nested text is laid out: the step of the indentation, and whether a comma follows the last item. -/
structure LayoutStyle where
  step : Nat
  trailingComma : Bool
  deriving DecidableEq, Repr

/-- Items on lines of their own between two brackets, one step deeper than these. -/
def LayoutStyle.block (style : LayoutStyle) (depth : Nat) (opening closing : String)
    (items : List String) : String :=
  if items.isEmpty then opening ++ closing
  else
    let lines := items.map (spaces (style.step * (depth + 1)) ++ ·)
    opening ++ "\n" ++ String.intercalate ",\n" lines ++
      (if style.trailingComma then ",\n" else "\n") ++ spaces (style.step * depth) ++ closing

end GraphQLSyntax
