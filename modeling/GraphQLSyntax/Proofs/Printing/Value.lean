import GraphQLSyntax.Proofs.Grammar.Induction
import GraphQLSyntax.Proofs.Parsing.Literal
import GraphQLSyntax.Proofs.Printing.Erasure
import GraphQLSyntax.Proofs.Printing.Restores

/-!
# Canonical texts of values
-/

set_option autoImplicit false

namespace GraphQLSyntax

variable {ts : List Token}

/-! ## Names -/

theorem spelling_of_nameText? {k : TokenKind} {text : String} (h : k.nameText? = some text) :
    k.spelling = text.toList := by
  cases k with
  | name | boolean | null =>
    cases h
    rfl
  | _ => cases h

/-- A name is printed as the token that it was read from. -/
theorem restores_nameToken {k : TokenKind} {text : String} {span : Span} (hWell : k.WellFormed)
    (hReadable : k.Readable) (hText : k.nameText? = some text) {D : Production Name}
    (hDerives : ∀ u : Token, u.kind = k → NamePhrase [u] ⟨text, u.span⟩ → D [u] ⟨text, u.span⟩) :
    Restores Delimited D Name.erase (Name.print ⟨text, span⟩) ⟨text, span⟩ := by
  have hPrint : Name.print ⟨text, span⟩ = k.spelling := (spelling_of_nameText? hText).symm
  rw [hPrint]
  refine .token hWell hReadable ?_
  intro u hKind
  exact ⟨⟨text, u.span⟩, hDerives u hKind (.mk (hKind ▸ hText)), rfl⟩

theorem NamePhrase.reprints {n : Name} (h : NamePhrase ts n) :
    Reprints NamePhrase Name.print Name.erase ts n := by
  cases h with
  | @mk t text hText =>
    intro hLexed
    obtain ⟨hWell, hReadable⟩ := hLexed t List.mem_cons_self
    exact restores_nameToken hWell hReadable hText fun _ _ hPhrase => hPhrase

theorem VariablePhrase.reprints {v : Variable} (h : VariablePhrase ts v) :
    Reprints VariablePhrase Variable.print Variable.erase ts v := by
  cases h with
  | @mk dollar ts n _ hName =>
    intro hLexed
    have hRestores := hName.reprints (lexed_cons.mp hLexed).2
    have hText : Variable.print ⟨n, spanOver (dollar :: ts)⟩ = ['$'] ++ n.print := rfl
    rw [hText]
    refine ((Restores.sign .dollar rfl).closed_seq hRestores).imp ?_
    rintro us ⟨_, n'⟩ ⟨_, vs, rfl, ⟨sign, rfl, hSign⟩, hPhrase⟩ hSame
    refine ⟨⟨n', spanOver (sign :: vs)⟩, .mk hSign hPhrase, ?_⟩
    simp only [Variable.erase, (Prod.mk.inj hSame).2]

/-! ## Literals -/

theorem IntPhrase.reprints {v : IntValue} (h : IntPhrase ts v) :
    Reprints IntPhrase IntValue.print IntValue.erase ts v := by
  cases h with
  | @mk t raw hKind =>
    intro hLexed
    obtain ⟨hWell, hReadable⟩ := hLexed t List.mem_cons_self
    rw [hKind] at hWell hReadable
    obtain ⟨hWell', hReadable'⟩ := canonical_int hWell hReadable
    refine Restores.token hWell' hReadable' ?_
    intro u hu
    refine ⟨_, .mk hu, ?_⟩
    simp only [IntValue.erase, intLiteral_toString]

theorem FloatPhrase.reprints {v : FloatValue} (h : FloatPhrase ts v) :
    Reprints FloatPhrase FloatValue.print FloatValue.erase ts v := by
  cases h with
  | @mk t raw hKind =>
    intro hLexed
    obtain ⟨-, hReadable⟩ := hLexed t List.mem_cons_self
    rw [hKind] at hReadable
    obtain ⟨hWell', hReadable', hLiteral⟩ := canonical_float hReadable
    refine Restores.token hWell' hReadable' ?_
    intro u hu
    refine ⟨_, .mk hu, ?_⟩
    simp only [FloatValue.erase, hLiteral]

theorem StringPhrase.reprints {v : StringValue} (h : StringPhrase ts v) :
    Reprints StringPhrase StringValue.print StringValue.erase ts v := by
  cases h with
  | @mk t raw hKind =>
    intro hLexed
    obtain ⟨hWell, hReadable⟩ := hLexed t List.mem_cons_self
    rw [hKind] at hWell hReadable
    obtain ⟨hWell', hReadable', hLiteral⟩ := canonical_string hWell hReadable
    have hText : StringValue.print ⟨stringLiteral raw, isBlockLiteral raw, t.span⟩ =
        (TokenKind.string (String.ofList (encodeQuoted (stringLiteral raw).toList))).spelling :=
      String.toList_ofList.symm
    rw [hText]
    refine Restores.token hWell' hReadable' ?_
    intro u hu
    refine ⟨_, .mk hu, ?_⟩
    simp only [StringValue.erase, hLiteral]

theorem WordPhrase.reprints {v : Value} (h : WordPhrase ts v) :
    Reprints WordPhrase Value.print Value.erase ts v := by
  intro hLexed
  cases h with
  | @boolean t b hKind =>
    have hText : Value.print (.boolean ⟨b, t.span⟩) = (TokenKind.boolean b).spelling := by
      cases b <;> rfl
    rw [hText]
    refine Restores.token trivial trivial ?_
    intro u hu
    exact ⟨_, .boolean hu, rfl⟩
  | null hKind =>
    refine @Restores.token _ _ _ _ .null trivial trivial ?_
    intro u hu
    exact ⟨_, .null hu, rfl⟩
  | @enum t text hKind =>
    obtain ⟨hWell, hReadable⟩ := hLexed t List.mem_cons_self
    rw [hKind] at hWell hReadable
    refine Restores.token hWell hReadable ?_
    intro u hu
    exact ⟨_, .enum hu, rfl⟩

/-! ## Lists and objects -/

section

variable {item : Production Value}

theorem Value.printAll_eq (vs : List Value) : Value.printAll vs = vs.map Value.print := by
  induction vs with
  | nil => rfl
  | cons v vs ih => rw [Value.printAll, ih, List.map_cons]

theorem ObjectField.printAll_eq (fs : List ObjectField) :
    ObjectField.printAll fs = fs.map ObjectField.print := by
  induction fs with
  | nil => rfl
  | cons f fs ih => rw [ObjectField.printAll, ih, List.map_cons]

/-- A name, a colon and what it labels. -/
theorem restores_labelled {α : Type} {D : Production α} {erase : α → α} {n : Name}
    {text : List Char} {a : α} (hName : NamePhrase ts n) (hLexed : Lexed ts)
    (h : Restores Delimited D erase text a) :
    Restores Delimited (Followed NamePhrase (Followed (Sign .colon) D))
      (Prod.map Name.erase (Prod.map id erase)) (labelled n text) (n, (), a) := by
  have hText : labelled n text = n.print ++ ([':'] ++ ([' '] ++ text)) := by simp [labelled]
  rw [hText]
  refine (hName.reprints hLexed).seq ((Restores.sign .colon rfl).closed_seq (h.blank_append blank_space)) ?_
  intro rest _
  exact (Punctuator.separates (p := .colon) (by decide)).append _ rest

theorem ListPhrase.reprints {v : ListValue}
    (h : ListPhrase (Reprints item Value.print Value.erase) ts v) :
    Reprints (ListPhrase item) ListValue.print ListValue.erase ts v := by
  cases h with
  | @mk ts vs hEnclosed =>
    intro hLexed
    have hText : ListValue.print ⟨vs, spanOver ts⟩ =
        ['['] ++ (commaSeparated (vs.map Value.print) ++ [']']) := by
      simp [ListValue.print, Value.printAll_eq]
    rw [hText]
    refine (Restores.commaSeparated (by decide) hEnclosed hLexed).imp ?_
    intro us vs' hPhrase hSame
    refine ⟨⟨vs', spanOver us⟩, .mk hPhrase, ?_⟩
    simp only [ListValue.erase, Value.eraseAll_eq, hSame]

theorem ObjectFieldPhrase.reprints {f : ObjectField}
    (h : ObjectFieldPhrase (Reprints item Value.print Value.erase) ts f) :
    Reprints (ObjectFieldPhrase item) ObjectField.print ObjectField.erase ts f := by
  cases h with
  | @mk colon ts us n v hName _ hValue =>
    intro hLexed
    obtain ⟨hTs, hUs⟩ := lexed_append.mp hLexed
    refine (restores_labelled hName hTs (hValue (lexed_cons.mp hUs).2)).imp ?_
    rintro vs ⟨n', _, v'⟩ ⟨ws, _, rfl, hName', _, xs, rfl, ⟨sign, rfl, hSign⟩, hPhrase⟩ hSame
    simp only [Prod.map, Prod.mk.injEq] at hSame
    refine ⟨⟨n', v', spanOver (ws ++ sign :: xs)⟩, .mk hName' hSign hPhrase, ?_⟩
    simp only [ObjectField.erase, hSame.1, hSame.2.2]

theorem ObjectPhrase.reprints {v : ObjectValue}
    (h : ObjectPhrase (Reprints item Value.print Value.erase) ts v) :
    Reprints (ObjectPhrase item) ObjectValue.print ObjectValue.erase ts v := by
  cases h with
  | @mk ts fs hEnclosed =>
    intro hLexed
    have hText : ObjectValue.print ⟨fs, spanOver ts⟩ =
        ['\x7b'] ++ (commaSeparated (fs.map ObjectField.print) ++ ['\x7d']) := by
      simp [ObjectValue.print, ObjectField.printAll_eq]
    have hFields := hEnclosed.mono fun _ _ hField => hField.reprints
    rw [hText]
    refine (Restores.commaSeparated (by decide) hFields hLexed).imp ?_
    intro us fs' hPhrase hSame
    refine ⟨⟨fs', spanOver us⟩, .mk hPhrase, ?_⟩
    simp only [ObjectValue.erase, ObjectField.eraseAll_eq, hSame]

end

/-! ## Values -/

section

variable {references : Bool}

theorem ValuePhrase.reprints {v : Value} (h : ValuePhrase references ts v) :
    Reprints (ValuePhrase references) Value.print Value.erase ts v := by
  apply h.fold (Reprints (ValuePhrase references) Value.print Value.erase)
  · intro hReferences ts v hPhrase
    exact hPhrase.reprints.map Value.reference rfl (fun _ _ => .reference hReferences) fun _ => rfl
  · intro ts v hPhrase
    exact hPhrase.reprints.map Value.int rfl (fun _ _ => .int) fun _ => rfl
  · intro ts v hPhrase
    exact hPhrase.reprints.map Value.float rfl (fun _ _ => .float) fun _ => rfl
  · intro ts v hPhrase
    exact hPhrase.reprints.map Value.string rfl (fun _ _ => .string) fun _ => rfl
  · intro ts v hPhrase
    exact hPhrase.reprints.map id rfl (fun _ _ => .word) fun _ => rfl
  · intro ts v hPhrase
    exact hPhrase.reprints.map Value.list rfl (fun _ _ => .list) fun _ => rfl
  · intro ts v hPhrase
    exact hPhrase.reprints.map Value.object rfl (fun _ _ => .object) fun _ => rfl

end

end GraphQLSyntax
