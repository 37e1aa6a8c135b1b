/-!
# Cutting text at a separator
-/

set_option autoImplicit false

namespace GraphQLSyntax

/-- The pieces between separators. There is always one more piece than there are separators. -/
def splitAtChar (separator : Char) : List Char → List (List Char)
  | [] => [[]]
  | c :: cs =>
    if c = separator then
      [] :: splitAtChar separator cs
    else
      match splitAtChar separator cs with
      | [] => [[c]]
      | piece :: pieces => (c :: piece) :: pieces

end GraphQLSyntax
