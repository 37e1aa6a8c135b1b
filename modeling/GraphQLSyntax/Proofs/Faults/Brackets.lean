import GraphQLSyntax.Parser.State
import GraphQLSyntax.Proofs.Faults.Prospect

/-!
# Open brackets

An opening punctuator is open until the closing one that belongs to it closes it. The openers that a parser
remembers are the open brackets of the tokens it has consumed.
-/

set_option autoImplicit false

namespace GraphQLSyntax

namespace TokenKind

/-- Neither opens nor closes anything. -/
def isPlain (k : TokenKind) : Bool := !k.isOpening && !k.isClosing

/-- The kind of token that closes what a token opens. -/
def partner? : TokenKind → Option TokenKind
  | punctuator p => p.partner?.map punctuator
  | _ => none

end TokenKind

/-! ## Balance -/

/-- Every bracket is closed, and by the punctuator that belongs to it. -/
inductive Balanced : List Token → Prop
  | nil : Balanced []
  | plain {t : Token} {ts : List Token} : t.kind.isPlain = true → Balanced ts → Balanced (t :: ts)
  | pair {opener closer : Token} {ts us : List Token} : opener.kind.partner? = some closer.kind →
    Balanced ts → Balanced us → Balanced (opener :: ts ++ closer :: us)

theorem Balanced.append {ts us : List Token} (hts : Balanced ts) (hus : Balanced us) : Balanced (ts ++ us) := by
  induction hts with
  | nil => exact hus
  | plain hPlain _ ih => exact .plain hPlain ih
  | pair hPartner hInside _ _ ih =>
    rw [List.append_assoc]
    exact .pair hPartner hInside ih

/-- The tokens leave some brackets open, of which the innermost one comes first. -/
inductive Unclosed : List Token → List Token → Prop
  | none {ts : List Token} : Balanced ts → Unclosed ts []
  | some {before inside opened : List Token} {opener : Token} : Unclosed before opened → Balanced inside →
    Unclosed (before ++ opener :: inside) (opener :: opened)

theorem Unclosed.append {ts us opened : List Token} (h : Unclosed ts opened) (hus : Balanced us) :
    Unclosed (ts ++ us) opened := by
  cases h with
  | none hts => exact .none (hts.append hus)
  | some hBefore hInside =>
    rw [List.append_assoc]
    exact .some hBefore (hInside.append hus)

/-! ## One token after another -/

/-- The open brackets after one more token, the innermost one first. A closing punctuator has to belong to
the innermost one. -/
def trackBracket (opened : List Token) (t : Token) : Option (List Token) :=
  if t.kind.isOpening then some (t :: opened)
  else if t.kind.isClosing then
    match opened with
    | opener :: opened => if opener.kind.partner? = some t.kind then some opened else none
    | [] => none
  else some opened

/-- The open brackets after some more tokens. -/
def openAfter (opened ts : List Token) : Option (List Token) := ts.foldlM trackBracket opened

@[simp] theorem openAfter_nil (opened : List Token) : openAfter opened [] = some opened := rfl

theorem openAfter_append (opened ts us : List Token) :
    openAfter opened (ts ++ us) = (openAfter opened ts).bind (openAfter · us) := List.foldlM_append

theorem openAfter_singleton (opened : List Token) (t : Token) :
    openAfter opened [t] = trackBracket opened t := bind_pure _

theorem trackBracket_plain {t : Token} (ht : t.kind.isPlain = true) (opened : List Token) :
    trackBracket opened t = some opened := by
  simp only [TokenKind.isPlain, Bool.and_eq_true, Bool.not_eq_true'] at ht
  simp [trackBracket, ht]

/-- A token opens a bracket, or closes the innermost one, or is no bracket. -/
theorem trackBracket_eq_some {opened opened' : List Token} {t : Token}
    (h : trackBracket opened t = some opened') :
    opened' = t :: opened ∨
      (∃ opener, opened = opener :: opened' ∧ opener.kind.partner? = some t.kind) ∨
      (opened' = opened ∧ t.kind.isPlain = true) := by
  unfold trackBracket at h
  split at h
  · exact .inl (Option.some.inj h).symm
  · rename_i hOpening
    split at h
    · split at h
      · rename_i opener opened
        split at h
        · rename_i hPartner
          exact .inr (.inl ⟨opener, by rw [Option.some.inj h], hPartner⟩)
        · cases h
      · cases h
    · rename_i hClosing
      exact .inr (.inr ⟨(Option.some.inj h).symm, by simp [TokenKind.isPlain, hOpening, hClosing]⟩)

theorem unclosed_of_openAfter {ts opened : List Token} (h : openAfter [] ts = some opened) :
    Unclosed ts opened := by
  induction ts using List.reverseRecOn generalizing opened with
  | nil =>
    cases h
    exact .none .nil
  | append_singleton ts t ih =>
    rw [openAfter_append] at h
    obtain ⟨before, hBefore, hTrack⟩ := Option.bind_eq_some_iff.mp h
    rw [openAfter_singleton] at hTrack
    have hUnclosed := ih hBefore
    obtain rfl | ⟨opener, rfl, hPartner⟩ | ⟨rfl, hPlain⟩ := trackBracket_eq_some hTrack
    · exact .some hUnclosed .nil
    · cases hUnclosed with
      | some hOutside hInside =>
        rw [List.append_assoc]
        exact hOutside.append (.pair hPartner hInside .nil)
    · exact hUnclosed.append (.plain hPlain .nil)

/-! ## Openers -/

/-- The token that an opener was read from. -/
def Opener.token (o : Opener) : Token := ⟨.punctuator o.enclosure.opening, o.span⟩

namespace Enclosure

theorem opening_partner (e : Enclosure) :
    (TokenKind.punctuator e.opening).partner? = some (.punctuator e.closing) := by
  cases e <;> rfl

theorem isOpening_opening (e : Enclosure) : (TokenKind.punctuator e.opening).isOpening = true := by
  cases e <;> rfl

theorem isOpening_closing (e : Enclosure) : (TokenKind.punctuator e.closing).isOpening = false := by
  cases e <;> rfl

theorem isClosing_closing (e : Enclosure) : (TokenKind.punctuator e.closing).isClosing = true := by
  cases e <;> rfl

end Enclosure

theorem trackBracket_opening {t : Token} {e : Enclosure} (ht : t.Is e.opening) (opened : List Token) :
    trackBracket opened t = some (Opener.token ⟨t.span, e⟩ :: opened) := by
  obtain ⟨kind, span⟩ := t
  have hKind : kind = .punctuator e.opening := ht
  subst hKind
  exact if_pos e.isOpening_opening

theorem trackBracket_closing {t : Token} {o : Opener} (ht : t.Is o.enclosure.closing) (opened : List Token) :
    trackBracket (o.token :: opened) t = some opened := by
  have hKind : t.kind = .punctuator o.enclosure.closing := ht
  simp [trackBracket, hKind, Enclosure.isOpening_closing, Enclosure.isClosing_closing, Opener.token,
    Enclosure.opening_partner]

/-- The open delimiters as tokens. -/
def ParserState.brackets (s : ParserState) : List Token := s.openers.map Opener.token

end GraphQLSyntax
