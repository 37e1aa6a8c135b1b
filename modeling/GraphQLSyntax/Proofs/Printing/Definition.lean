import GraphQLSyntax.Proofs.Printing.Selection

/-!
# Canonical texts of definitions and documents
-/

set_option autoImplicit false

namespace GraphQLSyntax

variable {ts : List Token}

/-! ## Variable definitions -/

theorem DefaultPhrase.reprints {v : Value} (h : DefaultPhrase ts v) :
    Reprints DefaultPhrase (fun v => ['='] ++ ([' '] ++ v.print)) Value.erase ts v := by
  cases h with
  | @mk equals ts _ _ hValue =>
    intro hLexed
    have hRestores := hValue.reprints (lexed_cons.mp hLexed).2
    refine ((Restores.sign .equals rfl).closed_seq (hRestores.blank_append blank_space)).imp ?_
    rintro us ⟨_, v'⟩ ⟨_, vs, rfl, ⟨sign, rfl, hSign⟩, hPhrase⟩ hSame
    exact ⟨v', .mk hSign hPhrase, (Prod.mk.inj hSame).2⟩

theorem restores_default {d : Option Value} (h : Optional DefaultPhrase ts d) (hLexed : Lexed ts)
    (v : Variable) (t : TypeReference) (span : Span) :
    ∃ text, VariableDefinition.print ⟨v, t, d, span⟩ = v.print ++ ([':'] ++ ([' '] ++ (t.print ++ text))) ∧
      Respects text ∧ Restores Delimited (Optional DefaultPhrase) (Option.map Value.erase) text d := by
  cases h with
  | absent => exact ⟨[], by simp [VariableDefinition.print], respects_nil, .absent⟩
  | @present _ d hPhrase =>
    refine ⟨[' '] ++ (['='] ++ ([' '] ++ d.print)), by simp [VariableDefinition.print], ?_, ?_⟩
    · exact (separates_cons (by decide) _).respects
    · exact ((hPhrase.reprints hLexed).blank_append blank_space).present

theorem VariableDefinitionPhrase.reprints {d : VariableDefinition} (h : VariableDefinitionPhrase ts d) :
    Reprints VariableDefinitionPhrase VariableDefinition.print VariableDefinition.erase ts d := by
  cases h with
  | @mk colon ts us vs v t d hVariable _ hType hDefault =>
    intro hLexed
    simp only [lexed_cons, lexed_append] at hLexed
    obtain ⟨hTs, -, hUs, hVs⟩ := hLexed
    obtain ⟨text, hText, hRespects, hRestores⟩ :=
      restores_default hDefault hVs v t (spanOver (ts ++ colon :: (us ++ vs)))
    have hTail := (hType.reprints hUs).seq hRestores hRespects
    have hRest := (Restores.sign .colon rfl).closed_seq (hTail.blank_append blank_space)
    have hColon : Separates ([':'] ++ ([' '] ++ (t.print ++ text))) := separates_cons (by decide) _
    rw [hText]
    refine ((hVariable.reprints hTs).seq hRest hColon.respects).imp ?_
    rintro _ ⟨v', _, t', d'⟩
      ⟨ts', _, rfl, hVariable', _, _, rfl, ⟨sign, rfl, hSign⟩, us', vs', rfl, hType', hDefault'⟩ hSame
    simp only [Prod.map, Prod.mk.injEq] at hSame
    refine ⟨_, @VariableDefinitionPhrase.mk _ ts' us' vs' _ _ _ hVariable' hSign hType' hDefault', ?_⟩
    simp only [VariableDefinition.erase, hSame]

theorem VariableDefinitionsPhrase.reprints {ds : List VariableDefinition}
    (h : VariableDefinitionsPhrase ts ds) :
    Reprints VariableDefinitionsPhrase VariableDefinition.printAll (List.map VariableDefinition.erase)
      ts ds := by
  cases h with
  | mk hNonempty hEnclosed =>
    intro hLexed
    have hText : VariableDefinition.printAll ds =
        ['('] ++ (commaSeparated (ds.map VariableDefinition.print) ++ [')']) := by
      simp [VariableDefinition.printAll]
    have hItems := hEnclosed.mono fun _ _ hItem => hItem.reprints
    rw [hText]
    refine (Restores.commaSeparated (by decide) hItems hLexed).imp ?_
    intro us ds' hPhrase hSame
    exact ⟨ds', .mk (nonempty_of_map_eq hSame hNonempty) hPhrase, hSame⟩

/-! ## Operations -/

theorem OperationTypePhrase.reprints {k : OperationKind} (h : OperationTypePhrase ts k) :
    Reprints OperationTypePhrase (fun k => k.text.toList) id ts k := by
  cases h with
  | @mk t _ hKind =>
    intro hLexed
    obtain ⟨hWell, hReadable⟩ := hLexed t List.mem_cons_self
    rw [hKind] at hWell hReadable
    exact Restores.token hWell hReadable fun u hu => ⟨k, .mk hu, rfl⟩

/-- Operations that are printed as a selection set. -/
theorem OperationDefinition.eq_of_isShorthand {o : OperationDefinition} (h : o.isShorthand = true) :
    o = ⟨.query, none, [], [], o.selectionSet, o.span⟩ := by
  cases o with
  | mk kind name variableDefinitions directives selectionSet span =>
    simp only [isShorthand, Bool.and_eq_true, beq_iff_eq, Option.isNone_iff_eq_none,
      List.isEmpty_iff] at h
    obtain ⟨⟨⟨rfl, rfl⟩, rfl⟩, rfl⟩ := h
    rfl

theorem restores_shorthand {s : SelectionSet} (h : SelectionSetPhrase ts s) (hLexed : Lexed ts)
    (span : Span) :
    Restores Delimited OperationPhrase OperationDefinition.erase s.print ⟨.query, none, [], [], s, span⟩ := by
  refine (SelectionSetPhrase.reprints h hLexed).imp ?_
  intro us s' hPhrase hSame
  refine ⟨_, .shorthand hPhrase, ?_⟩
  simp only [OperationDefinition.erase, hSame]

def OperationDefinition.printName : Option Name → List Char
  | none => []
  | some n => [' '] ++ n.print

def OperationDefinition.printVariables (ds : List VariableDefinition) : List Char :=
  if ds.isEmpty then [] else VariableDefinition.printAll ds

theorem OperationDefinition.print_of_not_shorthand {o : OperationDefinition} (h : o.isShorthand = false) :
    o.print = o.kind.text.toList ++ (printName o.name ++ (printVariables o.variableDefinitions ++
      (Directive.printAll o.directives ++ ([' '] ++ o.selectionSet.print)))) := by
  rw [print, h, printVariables]
  cases o.name <;> simp [printName]

theorem reprints_operationName {n : Option Name} (h : Optional NamePhrase ts n) :
    Reprints (Optional NamePhrase) OperationDefinition.printName (Option.map Name.erase) ts n := by
  intro hLexed
  cases h with
  | absent => exact .absent
  | present hName => exact ((hName.reprints hLexed).blank_append blank_space).present

theorem reprints_operationVariables {ds : List VariableDefinition}
    (h : OptionalList VariableDefinitionsPhrase ts ds) :
    Reprints (OptionalList VariableDefinitionsPhrase) OperationDefinition.printVariables
      (List.map VariableDefinition.erase) ts ds := by
  intro hLexed
  cases h with
  | absent => exact .absentList
  | present hPhrase =>
    have hNonempty : ds ≠ [] := by
      cases hPhrase
      assumption
    have hText : OperationDefinition.printVariables ds = VariableDefinition.printAll ds := by
      rw [OperationDefinition.printVariables, if_neg (by simpa using hNonempty)]
    rw [hText]
    exact (hPhrase.reprints hLexed).presentList

theorem OperationDefinition.printName_respects (n : Option Name) : Respects (printName n) := by
  cases n with
  | none => exact respects_nil
  | some n => exact (separates_cons (by decide) _).respects

theorem OperationDefinition.printVariables_respects (ds : List VariableDefinition) :
    Respects (printVariables ds) := by
  cases ds with
  | nil => exact respects_nil
  | cons d ds => exact (separates_cons (by decide) _).respects

theorem OperationPhrase.reprints {o : OperationDefinition} (h : OperationPhrase ts o) :
    Reprints OperationPhrase OperationDefinition.print OperationDefinition.erase ts o := by
  intro hLexed
  cases h with
  | shorthand hSet => exact restores_shorthand hSet hLexed _
  | @mk ts us vs ws xs k n vds ds s hKind hName hVariables hDirectives hSet =>
    simp only [lexed_append] at hLexed
    obtain ⟨hTs, hUs, hVs, hWs, hXs⟩ := hLexed
    generalize spanOver (ts ++ (us ++ (vs ++ (ws ++ xs)))) = span
    cases hShorthand : OperationDefinition.isShorthand ⟨k, n, vds, ds, s, span⟩ with
    | true =>
      -- A query without anything else is printed as a selection set, however it was written.
      rw [OperationDefinition.eq_of_isShorthand hShorthand]
      exact restores_shorthand hSet hXs span
    | false =>
      have hBody := restores_body hDirectives hWs hSet.reprints hXs
      have hVariablesRespects :=
        (OperationDefinition.printVariables_respects vds).append (body_respects ds s)
      have hSignature := (reprints_operationName hName hUs).seq
        ((reprints_operationVariables hVariables hVs).seq hBody (body_respects ds s)) hVariablesRespects
      rw [OperationDefinition.print_of_not_shorthand hShorthand]
      refine ((hKind.reprints hTs).seq hSignature
        ((OperationDefinition.printName_respects n).append hVariablesRespects)).imp ?_
      rintro _ ⟨k', n', vds', ds', s'⟩
        ⟨ts', _, rfl, hKind', us', _, rfl, hName', vs', _, rfl, hVariables', ws', xs', rfl, hDirectives',
          hSet'⟩ hSame
      simp only [Prod.map, Prod.mk.injEq, id] at hSame
      refine ⟨_, .mk hKind' hName' hVariables' hDirectives' hSet', ?_⟩
      simp only [OperationDefinition.erase, hSame]

/-! ## Fragments and documents -/

theorem FragmentPhrase.reprints {f : FragmentDefinition} (h : FragmentPhrase ts f) :
    Reprints FragmentPhrase FragmentDefinition.print FragmentDefinition.erase ts f := by
  cases h with
  | @mk keyword ts us vs ws n t ds s _ hName hCondition hDirectives hSet =>
    intro hLexed
    simp only [lexed_cons, lexed_append] at hLexed
    obtain ⟨-, hTs, hUs, hVs, hWs⟩ := hLexed
    generalize spanOver (keyword :: (ts ++ (us ++ (vs ++ ws)))) = span
    have hText : FragmentDefinition.print ⟨n, t, ds, s, span⟩ = ("fragment".toList ++ [' ']) ++
        (n.print ++ ([' '] ++ (t.print ++ (Directive.printAll ds ++ ([' '] ++ s.print))))) := by
      have hKeyword : "fragment ".toList = "fragment".toList ++ [' '] := rfl
      unfold FragmentDefinition.print
      rw [hKeyword]
      simp only [List.append_assoc]
    have hFragment : (TokenKind.name "fragment").WellFormed := NameText.wellFormed rfl rfl rfl (by decide)
    have hBody := restores_body hDirectives hVs hSet.reprints hWs
    have hTyped := ((hCondition.reprints hUs).seq hBody (body_respects ds s)).blank_append blank_space
    have hNamed := (hName.reprints hTs).seq hTyped (separates_cons (by decide) _).respects
    have hWord := (Restores.word hFragment).append_blank blank_space (by simp)
    rw [hText]
    refine (hWord.closed_seq hNamed).imp ?_
    rintro _ ⟨_, n', t', ds', s'⟩
      ⟨_, _, rfl, ⟨word, rfl, hWord'⟩, ts', _, rfl, hName', us', _, rfl, hCondition', vs', ws', rfl,
        hDirectives', hSet'⟩ hSame
    simp only [Prod.map, Prod.mk.injEq] at hSame
    refine ⟨_, @FragmentPhrase.mk _ ts' us' vs' ws' _ _ _ _ hWord' hName' hCondition' hDirectives' hSet', ?_⟩
    simp only [FragmentDefinition.erase, hSame]

theorem DefinitionPhrase.reprints {d : Definition} (h : DefinitionPhrase ts d) :
    Reprints DefinitionPhrase Definition.print Definition.erase ts d := by
  cases h with
  | @operation _ d hPhrase =>
    exact hPhrase.reprints.map Definition.operation rfl (fun _ _ => .operation) fun _ => rfl
  | @fragment _ d hPhrase =>
    exact hPhrase.reprints.map Definition.fragment rfl (fun _ _ => .fragment) fun _ => rfl

theorem DocumentPhrase.reprints {d : Document} (h : DocumentPhrase ts d) :
    Reprints DocumentPhrase Document.print Document.erase ts d := by
  cases h with
  | @mk ts ds hNonempty hItems =>
    intro hLexed
    have hLifted := hItems.mono fun _ _ hItem => hItem.reprints
    have hFeeds : Blank ['\n', '\n'] := by simp [Blank, isIgnoredChar, isBlankChar, isLineTerminator]
    refine (Restores.repeated hFeeds (by simp) hLifted hLexed).imp ?_
    intro us ds' hPhrase hSame
    refine ⟨⟨ds', spanOver us⟩, .mk (nonempty_of_map_eq hSame hNonempty) hPhrase, ?_⟩
    simp only [Document.erase, hSame]

end GraphQLSyntax
