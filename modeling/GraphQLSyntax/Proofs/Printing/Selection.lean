import GraphQLSyntax.Proofs.Printing.TypeReference

/-!
# Canonical texts of selections
-/

set_option autoImplicit false

namespace GraphQLSyntax

variable {ts : List Token}

/-! ## Arguments and directives -/

theorem ArgumentPhrase.reprints {a : Argument} (h : ArgumentPhrase ts a) :
    Reprints ArgumentPhrase Argument.print Argument.erase ts a := by
  cases h with
  | @mk colon ts us n v hName _ hValue =>
    intro hLexed
    obtain ⟨hTs, hUs⟩ := lexed_append.mp hLexed
    have hRestores := hValue.reprints (lexed_cons.mp hUs).2
    refine (restores_labelled hName hTs hRestores).imp ?_
    rintro vs ⟨n', _, v'⟩ ⟨ws, _, rfl, hName', _, xs, rfl, ⟨sign, rfl, hSign⟩, hPhrase⟩ hSame
    simp only [Prod.map, Prod.mk.injEq] at hSame
    refine ⟨⟨n', v', spanOver (ws ++ sign :: xs)⟩, .mk hName' hSign hPhrase, ?_⟩
    simp only [Argument.erase, hSame.1, hSame.2.2]

theorem nonempty_of_map_eq {α : Type} {f : α → α} {as bs : List α} (h : bs.map f = as.map f)
    (hNonempty : as ≠ []) : bs ≠ [] := by
  rintro rfl
  exact hNonempty (List.map_eq_nil_iff.mp h.symm)

theorem ArgumentsPhrase.reprints {as : List Argument} (h : ArgumentsPhrase ts as) :
    Reprints ArgumentsPhrase Argument.printAll (List.map Argument.erase) ts as := by
  cases h with
  | mk hNonempty hEnclosed =>
    intro hLexed
    have hText : Argument.printAll as =
        ['('] ++ (commaSeparated (as.map Argument.print) ++ [')']) := by
      simp [Argument.printAll, List.isEmpty_iff, hNonempty]
    have hItems := hEnclosed.mono fun _ _ hItem => hItem.reprints
    rw [hText]
    refine (Restores.commaSeparated (by decide) hItems hLexed).imp ?_
    intro us as' hPhrase hSame
    exact ⟨as', .mk (nonempty_of_map_eq hSame hNonempty) hPhrase, hSame⟩

theorem reprints_arguments {as : List Argument} (h : OptionalList ArgumentsPhrase ts as) :
    Reprints (OptionalList ArgumentsPhrase) Argument.printAll (List.map Argument.erase) ts as := by
  intro hLexed
  cases h with
  | absent => exact .absentList
  | present hPhrase => exact (hPhrase.reprints hLexed).presentList

theorem Argument.printAll_respects (as : List Argument) : Respects (Argument.printAll as) := by
  cases as with
  | nil => exact respects_nil
  | cons a as => exact (separates_cons (by decide) _).respects

theorem DirectivePhrase.reprints {d : Directive} (h : DirectivePhrase ts d) :
    Reprints DirectivePhrase Directive.print Directive.erase ts d := by
  cases h with
  | @mk sign ts us n as _ hName hArguments =>
    intro hLexed
    obtain ⟨hTs, hUs⟩ := lexed_append.mp (lexed_cons.mp hLexed).2
    have hText : Directive.print ⟨n, as, spanOver (sign :: (ts ++ us))⟩ =
        ['@'] ++ (n.print ++ Argument.printAll as) := by
      simp [Directive.print]
    have hRest := (hName.reprints hTs).seq (reprints_arguments hArguments hUs)
      (Argument.printAll_respects as)
    rw [hText]
    refine ((Restores.sign .atSign rfl).closed_seq hRest).imp ?_
    rintro vs ⟨_, n', as'⟩ ⟨_, _, rfl, ⟨sign', rfl, hSign⟩, ws, xs, rfl, hName', hArguments'⟩ hSame
    simp only [Prod.map, Prod.mk.injEq] at hSame
    refine ⟨⟨n', as', spanOver (sign' :: (ws ++ xs))⟩,
      @DirectivePhrase.mk _ ws xs _ _ hSign hName' hArguments', ?_⟩
    simp only [Directive.erase, hSame.2]

theorem DirectivesPhrase.reprints {ds : List Directive} (h : DirectivesPhrase ts ds) :
    Reprints DirectivesPhrase (fun ds => [' '].intercalate (ds.map Directive.print))
      (List.map Directive.erase) ts ds := by
  cases h with
  | mk hNonempty hItems =>
    intro hLexed
    have hLifted := hItems.mono fun _ _ hItem => hItem.reprints
    refine (Restores.repeated blank_space (by simp) hLifted hLexed).imp ?_
    intro us ds' hPhrase hSame
    exact ⟨ds', .mk (nonempty_of_map_eq hSame hNonempty) hPhrase, hSame⟩

theorem Directive.printAll_cons (d : Directive) (ds : List Directive) :
    Directive.printAll (d :: ds) = [' '] ++ [' '].intercalate ((d :: ds).map Directive.print) := by
  induction ds generalizing d with
  | nil => simp [printAll]
  | cons e ds ih =>
    have hStep : Directive.printAll (d :: e :: ds) = ' ' :: (d.print ++ Directive.printAll (e :: ds)) := rfl
    rw [hStep, ih e]
    simp only [List.map_cons, List.intercalate_cons_cons]
    simp

theorem reprints_directives {ds : List Directive} (h : OptionalList DirectivesPhrase ts ds) :
    Reprints (OptionalList DirectivesPhrase) Directive.printAll (List.map Directive.erase) ts ds := by
  intro hLexed
  cases h with
  | absent => exact .absentList
  | present hPhrase =>
    cases ds with
    | nil =>
      cases hPhrase with
      | mk hNonempty _ => exact absurd rfl hNonempty
    | cons d ds =>
      rw [Directive.printAll_cons]
      exact ((hPhrase.reprints hLexed).blank_append blank_space).presentList

theorem Directive.printAll_respects (ds : List Directive) : Respects (Directive.printAll ds) := by
  cases ds with
  | nil => exact respects_nil
  | cons d ds => exact (separates_cons (by decide) _).respects

/-! ## Aliases, type conditions and spreads -/

theorem AliasPhrase.reprints {a : Alias} (h : AliasPhrase ts a) :
    Reprints AliasPhrase Alias.print Alias.erase ts a := by
  cases h with
  | @mk colon ts n hName _ =>
    intro hLexed
    have hText : Alias.print ⟨n, spanOver (ts ++ [colon])⟩ = n.print ++ [':'] := rfl
    have hColon : Separates [':'] := separates_cons (by decide) []
    have hWhole := (hName.reprints (lexed_append.mp hLexed).1).seq (Restores.sign .colon rfl)
      fun rest _ => hColon rest
    rw [hText]
    refine hWhole.weaken.imp ?_
    rintro us ⟨n', _⟩ ⟨vs, _, rfl, hName', sign, rfl, hSign⟩ hSame
    simp only [Prod.map, Prod.mk.injEq] at hSame
    refine ⟨⟨n', spanOver (vs ++ [sign])⟩, .mk hName' hSign, ?_⟩
    simp only [Alias.erase, hSame.1]

theorem FragmentNamePhrase.reprints {n : Name} (h : FragmentNamePhrase ts n) :
    Reprints FragmentNamePhrase Name.print Name.erase ts n := by
  cases h with
  | @mk t _ hOn hName =>
    cases hName with
    | mk hText =>
      intro hLexed
      obtain ⟨hWell, hReadable⟩ := hLexed t List.mem_cons_self
      refine restores_nameToken hWell hReadable hText ?_
      intro u hKind hPhrase
      refine .mk ?_ hPhrase
      rwa [Token.IsWord, hKind]

theorem NameText.wellFormed {word : String} {c : Char} {cs : List Char} (hWord : word.toList = c :: cs)
    (hStart : isNameStart c = true) (hRest : cs.all isNameContinue = true)
    (hOther : word ≠ "true" ∧ word ≠ "false" ∧ word ≠ "null") : (TokenKind.name word).WellFormed := by
  refine ⟨?_, hOther⟩
  rw [hWord]
  exact .mk hStart fun d hd => List.all_eq_true.mp hRest d hd

theorem TypeConditionPhrase.reprints {t : TypeCondition} (h : TypeConditionPhrase ts t) :
    Reprints TypeConditionPhrase TypeCondition.print TypeCondition.erase ts t := by
  cases h with
  | @mk on ts t _ hNamed =>
    intro hLexed
    have hText : TypeCondition.print ⟨t, spanOver (on :: ts)⟩ = ("on".toList ++ [' ']) ++ t.print := rfl
    have hOn : (TokenKind.name "on").WellFormed :=
      NameText.wellFormed rfl rfl rfl (by decide)
    have hWord := (Restores.word hOn).append_blank blank_space (by simp)
    rw [hText]
    refine (hWord.closed_seq (hNamed.reprints (lexed_cons.mp hLexed).2)).imp ?_
    rintro us ⟨_, t'⟩ ⟨_, vs, rfl, ⟨on', rfl, hOn'⟩, hNamed'⟩ hSame
    simp only [Prod.map, Prod.mk.injEq] at hSame
    refine ⟨⟨t', spanOver (on' :: vs)⟩, .mk hOn' hNamed', ?_⟩
    simp only [TypeCondition.erase, hSame.2]

theorem FragmentSpreadPhrase.reprints {s : FragmentSpread} (h : FragmentSpreadPhrase ts s) :
    Reprints FragmentSpreadPhrase FragmentSpread.print FragmentSpread.erase ts s := by
  cases h with
  | @mk dots ts us n ds _ hName hDirectives =>
    intro hLexed
    obtain ⟨hTs, hUs⟩ := lexed_append.mp (lexed_cons.mp hLexed).2
    have hText : FragmentSpread.print ⟨n, ds, spanOver (dots :: (ts ++ us))⟩ =
        ['.', '.', '.'] ++ (n.print ++ Directive.printAll ds) := by
      simp [FragmentSpread.print]
    have hRest := (hName.reprints hTs).seq (reprints_directives hDirectives hUs)
      (Directive.printAll_respects ds)
    rw [hText]
    refine ((Restores.sign .ellipsis rfl).closed_seq hRest).imp ?_
    rintro vs ⟨_, n', ds'⟩ ⟨_, _, rfl, ⟨dots', rfl, hDots⟩, ws, xs, rfl, hName', hDirectives'⟩ hSame
    simp only [Prod.map, Prod.mk.injEq] at hSame
    refine ⟨⟨n', ds', spanOver (dots' :: (ws ++ xs))⟩,
      @FragmentSpreadPhrase.mk _ ws xs _ _ hDots hName' hDirectives', ?_⟩
    simp only [FragmentSpread.erase, hSame.2]

/-! ## Fields and fragments -/

section

variable {sub : Production SelectionSet}

/-- The directives and the selections of a fragment or an operation. -/
theorem restores_body {us : List Token} {ds : List Directive} {s : SelectionSet}
    (hDirectives : OptionalList DirectivesPhrase ts ds) (hTs : Lexed ts)
    (hSet : Reprints sub SelectionSet.print SelectionSet.erase us s) (hUs : Lexed us) :
    Restores Delimited (Followed (OptionalList DirectivesPhrase) sub)
      (Prod.map (List.map Directive.erase) SelectionSet.erase)
      (Directive.printAll ds ++ ([' '] ++ s.print)) (ds, s) :=
  (reprints_directives hDirectives hTs).seq ((hSet hUs).blank_append blank_space)
    (separates_cons (by decide) s.print).respects

theorem body_respects (ds : List Directive) (s : SelectionSet) :
    Respects (Directive.printAll ds ++ ([' '] ++ s.print)) :=
  (Directive.printAll_respects ds).append (separates_cons (by decide) s.print).respects

theorem reprints_selectionSet? {s : Option SelectionSet}
    (h : Optional (Reprints sub SelectionSet.print SelectionSet.erase) ts s) :
    Reprints (Optional sub) SelectionSet.printOptional (Option.map SelectionSet.erase) ts s := by
  intro hLexed
  cases h with
  | absent => exact .absent
  | present hSub => exact ((hSub hLexed).blank_append blank_space).present

theorem SelectionSet.printOptional_respects (s : Option SelectionSet) :
    Respects (SelectionSet.printOptional s) := by
  cases s with
  | none => exact respects_nil
  | some s => exact (separates_cons (by decide) _).respects

theorem restores_alias {a : Option Alias} (h : Optional AliasPhrase ts a) (hLexed : Lexed ts) (n : Name)
    (as : List Argument) (ds : List Directive) :
    ∃ lead, Field.printHead a n as ds = lead ++ (n.print ++ (Argument.printAll as ++ Directive.printAll ds)) ∧
      Restores Anything (Optional AliasPhrase) (Option.map Alias.erase) lead a := by
  cases h with
  | absent => exact ⟨[], by simp [Field.printHead], .absent⟩
  | @present _ a hPhrase =>
    refine ⟨a.print ++ [' '], by simp [Field.printHead], ?_⟩
    exact ((hPhrase.reprints hLexed).append_blank blank_space (by simp)).present

theorem FieldPhrase.reprints {f : Field}
    (h : FieldPhrase (Reprints sub SelectionSet.print SelectionSet.erase) ts f) :
    Reprints (FieldPhrase sub) Field.print Field.erase ts f := by
  cases h with
  | @mk ts us vs ws xs a n as ds s hAlias hName hArguments hDirectives hSet =>
    intro hLexed
    simp only [lexed_append] at hLexed
    obtain ⟨hTs, hUs, hVs, hWs, hXs⟩ := hLexed
    obtain ⟨lead, hLead, hRestores⟩ := restores_alias hAlias hTs n as ds
    have hText : Field.print ⟨a, n, as, ds, s, spanOver (ts ++ (us ++ (vs ++ (ws ++ xs))))⟩ =
        lead ++ (n.print ++ (Argument.printAll as ++
          (Directive.printAll ds ++ SelectionSet.printOptional s))) := by
      simp only [Field.print, hLead, List.append_assoc]
    have hTail := (reprints_directives hDirectives hWs).seq (reprints_selectionSet? hSet hXs)
      (SelectionSet.printOptional_respects s)
    have hTailRespects := (Directive.printAll_respects ds).append (SelectionSet.printOptional_respects s)
    have hRest := (hName.reprints hUs).seq ((reprints_arguments hArguments hVs).seq hTail hTailRespects)
      ((Argument.printAll_respects as).append hTailRespects)
    rw [hText]
    refine (hRestores.closed_seq hRest).imp ?_
    rintro _ ⟨a', n', as', ds', s'⟩
      ⟨ts', _, rfl, hAlias', us', _, rfl, hName', vs', _, rfl, hArguments', ws', xs', rfl, hDirectives',
        hSet'⟩ hSame
    simp only [Prod.map, Prod.mk.injEq] at hSame
    refine ⟨_, .mk hAlias' hName' hArguments' hDirectives' hSet', ?_⟩
    simp only [Field.erase, SelectionSet.eraseOptional_eq, hSame]

theorem restores_condition {t : Option TypeCondition} (h : Optional TypeConditionPhrase ts t)
    (hLexed : Lexed ts) (ds : List Directive) :
    ∃ condition, InlineFragment.printHead t ds = ['.', '.', '.'] ++ (condition ++ Directive.printAll ds) ∧
      Respects condition ∧
      Restores Delimited (Optional TypeConditionPhrase) (Option.map TypeCondition.erase) condition t := by
  cases h with
  | absent => exact ⟨[], by simp [InlineFragment.printHead], respects_nil, .absent⟩
  | @present _ t hPhrase =>
    refine ⟨[' '] ++ t.print, by simp [InlineFragment.printHead], ?_, ?_⟩
    · exact (separates_cons (by decide) _).respects
    · exact ((hPhrase.reprints hLexed).blank_append blank_space).present

theorem InlineFragmentPhrase.reprints {f : InlineFragment}
    (h : InlineFragmentPhrase (Reprints sub SelectionSet.print SelectionSet.erase) ts f) :
    Reprints (InlineFragmentPhrase sub) InlineFragment.print InlineFragment.erase ts f := by
  cases h with
  | @mk dots ts us vs t ds s _ hCondition hDirectives hSet =>
    intro hLexed
    simp only [lexed_cons, lexed_append] at hLexed
    obtain ⟨-, hTs, hUs, hVs⟩ := hLexed
    obtain ⟨condition, hCondition, hRespects, hRestores⟩ := restores_condition hCondition hTs ds
    have hText : InlineFragment.print ⟨t, ds, s, spanOver (dots :: (ts ++ (us ++ vs)))⟩ =
        ['.', '.', '.'] ++ (condition ++ (Directive.printAll ds ++ ([' '] ++ s.print))) := by
      simp only [InlineFragment.print, hCondition, List.append_assoc]
    have hRest := hRestores.seq (restores_body hDirectives hUs hSet hVs) (body_respects ds s)
    rw [hText]
    refine ((Restores.sign .ellipsis rfl).closed_seq hRest).imp ?_
    rintro _ ⟨_, t', ds', s'⟩
      ⟨_, _, rfl, ⟨dots', rfl, hDots⟩, ts', _, rfl, hCondition', us', vs', rfl, hDirectives', hSet'⟩ hSame
    simp only [Prod.map, Prod.mk.injEq] at hSame
    refine ⟨_, @InlineFragmentPhrase.mk _ _ ts' us' vs' _ _ _ hDots hCondition' hDirectives' hSet', ?_⟩
    simp only [InlineFragment.erase, hSame]

theorem SelectionPhrase.reprints {s : Selection}
    (h : SelectionPhrase (Reprints sub SelectionSet.print SelectionSet.erase) ts s) :
    Reprints (SelectionPhrase sub) Selection.print Selection.erase ts s := by
  cases h with
  | @field _ f hPhrase =>
    exact hPhrase.reprints.map Selection.field rfl (fun _ _ => .field) fun _ => rfl
  | @fragmentSpread _ f hPhrase =>
    exact hPhrase.reprints.map Selection.fragmentSpread rfl (fun _ _ => .fragmentSpread) fun _ => rfl
  | @inlineFragment _ f hPhrase =>
    exact hPhrase.reprints.map Selection.inlineFragment rfl (fun _ _ => .inlineFragment) fun _ => rfl

end

theorem Selection.printAll_eq (ss : List Selection) : Selection.printAll ss = ss.map Selection.print := by
  induction ss with
  | nil => rfl
  | cons s ss ih => rw [Selection.printAll, ih, List.map_cons]

theorem SelectionSetPhrase.reprints {s : SelectionSet} (h : SelectionSetPhrase ts s) :
    Reprints SelectionSetPhrase SelectionSet.print SelectionSet.erase ts s := by
  apply h.fold (Reprints SelectionSetPhrase SelectionSet.print SelectionSet.erase)
  intro ts ss hNonempty hSelections hLexed
  have hText : SelectionSet.print ⟨ss, spanOver ts⟩ =
      ['\x7b'] ++ ([' '] ++ ([' '].intercalate (ss.map Selection.print) ++ ([' '] ++ ['\x7d']))) := by
    simp [SelectionSet.print, Selection.printAll_eq]
  have hItems := hSelections.mono fun _ _ hItem => hItem.reprints
  rw [hText]
  refine (Restores.enclosed blank_space (by simp) blank_space (by decide) hItems hLexed).weaken.imp ?_
  intro us ss' hPhrase hSame
  refine ⟨⟨ss', spanOver us⟩, .mk (nonempty_of_map_eq hSame hNonempty) hPhrase, ?_⟩
  simp only [SelectionSet.erase, Selection.eraseAll_eq, hSame]

end GraphQLSyntax
