import GraphQLSyntax.Proofs.Termination.Consumption

/-!
# Runs of the code

A run goes through the code step by step and through the code of every procedure that is called. It knows no limit on the
number of rounds, and none on the depth of nested constructs but that of the parser itself.
-/

set_option autoImplicit false

namespace GraphQLSyntax

namespace Parser

variable {α β : Type}

/-- The result of what was one level deeper. -/
def leaveLevel : EStateM.Result ParseError ParserState α → EStateM.Result ParseError ParserState α
  | .ok a s => .ok a { s with depth := s.depth - 1 }
  | .error e s => .error e { s with depth := s.depth - 1 }

/-- The runs of a code. A run is finite, so that there is none if calls or rounds go on for ever. -/
inductive Runs : {α : Type} → Code α → ParserState → EStateM.Result ParseError ParserState α → Prop
  | step {α : Type} {p : Parser α} (h : Straight p) (s : ParserState) : Runs (.step h) s (p s)
  | bindOk {α β : Type} {c : Code α} {f : α → Code β} {s t : ParserState} {a : α}
      {r : EStateM.Result ParseError ParserState β} :
      Runs c s (.ok a t) → Runs (f a) t r → Runs (.bind c f) s r
  | bindError {α β : Type} {c : Code α} {f : α → Code β} {s t : ParserState} {e : ParseError} :
      Runs c s (.error e t) → Runs (.bind c f) s (.error e t)
  | nested {α : Type} {c : Code α} {s : ParserState} {r : EStateM.Result ParseError ParserState α} :
      s.depth < maxDepth → Runs c { s with depth := s.depth + 1 } r → Runs (.nested c) s (leaveLevel r)
  | tooDeep {α : Type} (c : Code α) {s : ParserState} : ¬ s.depth < maxDepth → Runs (.nested c) s (tooDeep s)
  | perform {α : Type} {x : Procedure α} {s : ParserState} {r : EStateM.Result ParseError ParserState α} :
      Runs x.code s r → Runs (.perform x) s r

variable {c : Code α} {f : α → Code β} {s t : ParserState} {r : EStateM.Result ParseError ParserState α}

theorem nested_eq_leaveLevel {p : Parser α} (h : s.depth < maxDepth) :
    nested p s = leaveLevel (p { s with depth := s.depth + 1 }) := by
  unfold nested
  rw [if_pos h]
  cases p { s with depth := s.depth + 1 } <;> rfl

theorem rest_leaveLevel (r : EStateM.Result ParseError ParserState α) :
    (finalState (leaveLevel r)).rest = (finalState r).rest := by
  cases r <;> rfl

/-- A run ends as the parser does. -/
theorem Runs.eq (h : Runs c s r) : r = c.parser s := by
  induction h with
  | step => rfl
  | @bindOk _ _ c f s _ _ _ _ _ ihFirst ihRest =>
    change _ = (c.parser >>= fun a => (f a).parser) s
    rw [bind_of_ok ihFirst.symm]
    exact ihRest
  | bindError _ ih => exact (bind_of_error ih.symm).symm
  | nested hDepth _ ih =>
    rw [ih]
    exact (nested_eq_leaveLevel hDepth).symm
  | tooDeep c hDepth => exact (if_neg hDepth).symm
  | @perform _ x _ _ _ ih => exact ih.trans (congrFun x.parser_code _)

theorem Runs.proceeds (h : Runs c s r) : (finalState r).rest <:+ s.rest := by
  induction h with
  | step h s => exact h.proceeds s
  | bindOk _ _ ihFirst ihRest => exact ihRest.trans ihFirst
  | bindError _ ih => exact ih
  | nested _ _ ih =>
    rw [rest_leaveLevel]
    exact ih
  | tooDeep c _ => exact plain_tooDeep.proceeds _
  | perform _ ih => exact ih

theorem Runs.consumes (h : Runs c s r) (hTakes : c.Takes) :
    ∀ a t, r = .ok a t → t.rest.length < s.rest.length := by
  induction h with
  | step => exact fun a t hRun => hTakes hRun
  | bindError => exact nofun
  | bindOk hFirst hRest ihFirst ihRest =>
    rintro b u rfl
    rcases hTakes with hTakes | hTakes
    · exact Nat.lt_of_le_of_lt hRest.proceeds.length_le (ihFirst hTakes _ _ rfl)
    · exact Nat.lt_of_lt_of_le (ihRest (hTakes _) _ _ rfl) hFirst.proceeds.length_le
  | @nested _ _ _ r _ _ ih =>
    intro a t hLeft
    cases r with
    | ok b u =>
      cases hLeft
      exact ih hTakes _ u rfl
    | error => cases hLeft
  | tooDeep =>
    intro a t hRun
    exact consumes_throwHere _ hRun
  | @perform _ x _ _ _ ih =>
    cases x with
    | routine r => exact ih (r.takes_code hTakes)
    | loop l => exact hTakes.elim

end Parser

end GraphQLSyntax
