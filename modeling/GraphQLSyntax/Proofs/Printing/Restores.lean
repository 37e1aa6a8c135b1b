import GraphQLSyntax.Proofs.Lexing.Lossless
import GraphQLSyntax.Proofs.Parsing.Progress

/-!
# Texts that restore nodes

A text spells tokens in front of certain texts, and it restores a node for a production when the node can
be derived from those tokens, up to what erasure takes from it.
-/

set_option autoImplicit false

namespace GraphQLSyntax

def Anything : List Char → Prop := fun _ => True

/-- Texts that may stand before delimited ones as if they were not there. -/
def Respects (text : List Char) : Prop := ∀ rest, Delimited rest → Delimited (text ++ rest)

/-- Texts that delimit what stands before them. -/
def Separates (text : List Char) : Prop := ∀ rest, Delimited (text ++ rest)

def Blank (text : List Char) : Prop := ∀ c ∈ text, isIgnoredChar c = true

/-- The tokens of a text that stands before one of certain texts. All of them stand for something. -/
structure Spells (next : List Char → Prop) (text : List Char) (ks : List TokenKind) : Prop where
  readable : ∀ k ∈ ks, k.Readable
  spelled : ∀ rest ls, next rest → Spelled rest ls → Spelled (text ++ rest) (ks ++ ls)

theorem respects_nil : Respects [] := fun _ h => h

theorem Respects.append {text text' : List Char} (h : Respects text) (h' : Respects text') :
    Respects (text ++ text') := by
  intro rest hRest
  rw [List.append_assoc]
  exact h _ (h' rest hRest)

theorem Separates.respects {text : List Char} (h : Separates text) : Respects text := fun rest _ => h rest

theorem Separates.append {text : List Char} (h : Separates text) (text' : List Char) :
    Separates (text ++ text') := by
  intro rest
  rw [List.append_assoc]
  exact h _

theorem separates_cons {c : Char} (h : isNameContinue c = false ∧ c ≠ '.' ∧ c ≠ '"') (cs : List Char) :
    Separates (c :: cs) := by
  intro rest d hd
  cases hd
  exact h

theorem Punctuator.separates {p : Punctuator} (h : p ≠ .ellipsis) : Separates p.text.toList := by
  cases p with
  | ellipsis => exact absurd rfl h
  | _ => exact separates_cons (by decide) []

theorem Blank.separates {text : List Char} (h : Blank text) (hNonempty : text ≠ []) : Separates text := by
  obtain ⟨c, cs, rfl⟩ := List.exists_cons_of_ne_nil hNonempty
  apply separates_cons
  have hc := h c List.mem_cons_self
  simp only [isIgnoredChar, isBlankChar, isLineTerminator, Bool.or_eq_true, decide_eq_true_eq] at hc
  rcases hc with ((rfl | rfl) | rfl | rfl) | rfl <;> decide

theorem blank_nil : Blank [] := fun _ hc => nomatch hc

theorem blank_space : Blank [' '] := by simp [Blank, isIgnoredChar, isBlankChar]

theorem blank_commaSpace : Blank [',', ' '] := by simp [Blank, isIgnoredChar, isBlankChar]

/-! ## Spelling -/

namespace Spells

variable {next next' : List Char → Prop} {text text' : List Char} {ks ls : List TokenKind}

theorem append (h : Spells next text ks) (h' : Spells next' text' ls)
    (hNext : ∀ rest, next' rest → next (text' ++ rest)) : Spells next' (text ++ text') (ks ++ ls) where
  readable k hk := (List.mem_append.mp hk).elim (h.readable k) (h'.readable k)
  spelled := by
    intro rest ms hRest hSpelled
    rw [List.append_assoc, List.append_assoc]
    exact h.spelled _ _ (hNext rest hRest) (h'.spelled _ _ hRest hSpelled)

/-- After a text that ends its last token itself, anything may stand. -/
theorem closed_append (h : Spells Anything text ks) (h' : Spells next' text' ls) :
    Spells next' (text ++ text') (ks ++ ls) :=
  h.append h' fun _ _ => trivial

theorem weaken (h : Spells Anything text ks) : Spells next text ks where
  readable := h.readable
  spelled rest ls _ hSpelled := h.spelled rest ls trivial hSpelled

theorem nil : Spells next [] [] where
  readable _ hk := nomatch hk
  spelled _ _ _ hSpelled := hSpelled

theorem token {k : TokenKind} (hWell : k.WellFormed) (hReadable : k.Readable) :
    Spells Delimited k.spelling [k] where
  readable l hl := by
    rw [List.mem_singleton.mp hl]
    exact hReadable
  spelled rest ls hRest hSpelled := .token hWell (k.endsBefore_of_delimited hRest) hSpelled

theorem punctuator (p : Punctuator) : Spells Anything p.text.toList [.punctuator p] where
  readable l hl := by
    rw [List.mem_singleton.mp hl]
    trivial
  spelled rest ls _ hSpelled := @Spelled.token (.punctuator p) _ _ trivial trivial hSpelled

theorem blank (h : Blank text) : Spells Anything text [] where
  readable k hk := nomatch hk
  spelled := by
    intro rest ls _ hSpelled
    rw [List.nil_append]
    induction text with
    | nil => exact hSpelled
    | cons c cs ih =>
      exact .ignored (h c List.mem_cons_self) (ih fun d hd => h d (List.mem_cons_of_mem c hd))

/-- Blank text at the end of a text keeps what follows apart from it. -/
theorem append_blank (h : Spells Delimited text ks) {pad : List Char} (hPad : Blank pad)
    (hNonempty : pad ≠ []) : Spells Anything (text ++ pad) ks := by
  have hAppend := h.append (.blank hPad) fun rest _ => hPad.separates hNonempty rest
  rwa [List.append_nil] at hAppend

theorem blank_append (h : Spells next text ks) {pad : List Char} (hPad : Blank pad) :
    Spells next (pad ++ text) ks :=
  (blank hPad).closed_append h

theorem lex (h : Spells Delimited text ks) (file : Option Path) :
    ∃ ts last, GraphQLSyntax.lex file (String.ofList text) = ts ++ [last] ∧ ts.map Token.kind = ks ∧
      last.kind = .endOfInput := by
  have hEmpty : Delimited [] := fun c hc => nomatch hc
  have hSpelled := h.spelled [] [] hEmpty .done
  rw [List.append_nil, List.append_nil] at hSpelled
  obtain ⟨ts, us, hLex, hKinds, hLast⟩ := List.map_eq_append_iff.mp (@Spelled.lex file _ _ hSpelled)
  obtain ⟨last, vs, rfl, hEnd, hNil⟩ := List.map_eq_cons_iff.mp hLast
  cases vs with
  | nil => exact ⟨ts, last, hLex, hKinds, hEnd⟩
  | cons => cases hNil

end Spells

/-! ## Restoring -/

/-- The tokens that the text spells can be derived as the node, up to what erasure takes from it. -/
def Restores {α : Type} (next : List Char → Prop) (D : Production α) (erase : α → α) (text : List Char)
    (a : α) : Prop :=
  ∃ ks, Spells next text ks ∧ ∀ us, us.map Token.kind = ks → ∃ b, D us b ∧ erase b = erase a

def Sign (p : Punctuator) : Production Unit := fun us _ => ∃ t : Token, us = [t] ∧ t.Is p

def Word (word : String) : Production Unit := fun us _ => ∃ t : Token, us = [t] ∧ t.IsWord word

/-- One production after another. -/
def Followed {α β : Type} (D : Production α) (E : Production β) : Production (α × β) := fun us p =>
  ∃ ts vs, us = ts ++ vs ∧ D ts p.1 ∧ E vs p.2

/-- Tokens of a text without faults whose literals all stand for something. -/
def Lexed (ts : List Token) : Prop := ∀ t ∈ ts, t.kind.WellFormed ∧ t.kind.Readable

/-- The nodes that their canonical text restores. -/
def Reprints {α : Type} (D : Production α) (print : α → List Char) (erase : α → α) : Production α :=
  fun ts a => Lexed ts → Restores Delimited D erase (print a) a

theorem lexed_append {ts us : List Token} : Lexed (ts ++ us) ↔ Lexed ts ∧ Lexed us :=
  List.forall_mem_append

theorem lexed_cons {t : Token} {ts : List Token} :
    Lexed (t :: ts) ↔ (t.kind.WellFormed ∧ t.kind.Readable) ∧ Lexed ts :=
  List.forall_mem_cons

namespace Restores

variable {α β : Type} {next next' : List Char → Prop} {D : Production α} {E : Production β} {erase : α → α}
  {erase' : β → β} {text : List Char} {a : α} {b : β}

/-- A node of the same text that can be derived from the same tokens. -/
theorem imp (h : Restores next D erase text a)
    (hNode : ∀ us a', D us a' → erase a' = erase a → ∃ b', E us b' ∧ erase' b' = erase' b) :
    Restores next E erase' text b := by
  obtain ⟨ks, hSpells, hReads⟩ := h
  refine ⟨ks, hSpells, ?_⟩
  intro us hUs
  obtain ⟨a', hPhrase, hSame⟩ := hReads us hUs
  exact hNode us a' hPhrase hSame

theorem map (h : Restores next D erase text a) (g : α → β) (hDerives : ∀ us a', D us a' → E us (g a'))
    (hErase : ∀ a', erase a' = erase a → erase' (g a') = erase' (g a)) :
    Restores next E erase' text (g a) :=
  h.imp fun us a' hPhrase hSame => ⟨g a', hDerives us a' hPhrase, hErase a' hSame⟩

theorem weaken (h : Restores Anything D erase text a) : Restores next D erase text a := by
  obtain ⟨ks, hSpells, hReads⟩ := h
  exact ⟨ks, hSpells.weaken, hReads⟩

theorem blank_append (h : Restores next D erase text a) {pad : List Char} (hPad : Blank pad) :
    Restores next D erase (pad ++ text) a := by
  obtain ⟨ks, hSpells, hReads⟩ := h
  exact ⟨ks, hSpells.blank_append hPad, hReads⟩

theorem append_blank (h : Restores Delimited D erase text a) {pad : List Char} (hPad : Blank pad)
    (hNonempty : pad ≠ []) : Restores Anything D erase (text ++ pad) a := by
  obtain ⟨ks, hSpells, hReads⟩ := h
  exact ⟨ks, hSpells.append_blank hPad hNonempty, hReads⟩

theorem token {k : TokenKind} (hWell : k.WellFormed) (hReadable : k.Readable)
    (hNode : ∀ u : Token, u.kind = k → ∃ b, D [u] b ∧ erase b = erase a) :
    Restores Delimited D erase k.spelling a := by
  refine ⟨[k], .token hWell hReadable, ?_⟩
  intro us hUs
  obtain ⟨u, vs, rfl, hKind, hNil⟩ := List.map_eq_cons_iff.mp hUs
  rw [List.map_eq_nil_iff.mp hNil]
  exact hNode u hKind

theorem sign (p : Punctuator) {text : List Char} (hText : p.text.toList = text) :
    Restores Anything (Sign p) id text () := by
  refine ⟨[.punctuator p], hText ▸ .punctuator p, ?_⟩
  intro us hUs
  obtain ⟨u, vs, rfl, hKind, hNil⟩ := List.map_eq_cons_iff.mp hUs
  rw [List.map_eq_nil_iff.mp hNil]
  exact ⟨(), ⟨u, rfl, hKind⟩, rfl⟩

theorem word {word : String} (hWell : (TokenKind.name word).WellFormed) :
    Restores Delimited (Word word) id word.toList () :=
  token hWell trivial fun u hKind => ⟨(), ⟨u, rfl, hKind⟩, rfl⟩

theorem seq {text' : List Char} (h : Restores next D erase text a) (h' : Restores next' E erase' text' b)
    (hNext : ∀ rest, next' rest → next (text' ++ rest)) :
    Restores next' (Followed D E) (Prod.map erase erase') (text ++ text') (a, b) := by
  obtain ⟨ks, hSpells, hReads⟩ := h
  obtain ⟨ls, hSpells', hReads'⟩ := h'
  refine ⟨ks ++ ls, hSpells.append hSpells' hNext, ?_⟩
  intro us hUs
  obtain ⟨ts, vs, rfl, hTs, hVs⟩ := List.map_eq_append_iff.mp hUs
  obtain ⟨a', hPhrase, hSame⟩ := hReads ts hTs
  obtain ⟨b', hPhrase', hSame'⟩ := hReads' vs hVs
  exact ⟨(a', b'), ⟨ts, vs, rfl, hPhrase, hPhrase'⟩, Prod.ext hSame hSame'⟩

theorem closed_seq {text' : List Char} (h : Restores Anything D erase text a)
    (h' : Restores next' E erase' text' b) :
    Restores next' (Followed D E) (Prod.map erase erase') (text ++ text') (a, b) :=
  h.seq h' fun _ _ => trivial

theorem absent : Restores next (Optional D) (Option.map erase) [] none := by
  refine ⟨[], .nil, ?_⟩
  intro us hUs
  rw [List.map_eq_nil_iff.mp hUs]
  exact ⟨none, .absent, rfl⟩

theorem present (h : Restores next D erase text a) :
    Restores next (Optional D) (Option.map erase) text (some a) :=
  h.map some (fun _ _ hPhrase => .present hPhrase) fun _ hSame => congrArg some hSame

theorem absentList {D : Production (List α)} : Restores next (OptionalList D) (List.map erase) [] [] := by
  refine ⟨[], .nil, ?_⟩
  intro us hUs
  rw [List.map_eq_nil_iff.mp hUs]
  exact ⟨[], .absent, rfl⟩

theorem presentList {D : Production (List α)} {as : List α} (h : Restores next D (List.map erase) text as) :
    Restores next (OptionalList D) (List.map erase) text as :=
  h.map id (fun _ _ hPhrase => .present hPhrase) fun _ hSame => hSame

/-! ## Repetitions and enclosures -/

variable {print : α → List Char} {separator pad : List Char} {ts : List Token} {as : List α}

theorem repeated (hBlank : Blank separator) (hNonempty : separator ≠ [])
    (h : Repeated (Reprints D print erase) ts as) :
    Lexed ts →
      Restores Delimited (Repeated D) (List.map erase) (separator.intercalate (as.map print)) as := by
  induction h with
  | nil =>
    intro _
    refine ⟨[], .nil, ?_⟩
    intro us hUs
    rw [List.map_eq_nil_iff.mp hUs]
    exact ⟨[], .nil, rfl⟩
  | @cons ts us a as hItem hRest ih =>
    intro hLexed
    obtain ⟨hTs, hUs⟩ := lexed_append.mp hLexed
    have hFirst := hItem hTs
    cases as with
    | nil =>
      rw [List.map_singleton, List.intercalate_singleton]
      refine hFirst.imp ?_
      intro vs a' hPhrase hSame
      refine ⟨[a'], ?_, by rw [List.map_singleton, hSame, List.map_singleton]⟩
      rw [← List.append_nil vs]
      exact .cons hPhrase .nil
    | cons b bs =>
      rw [List.map_cons, List.map_cons, List.intercalate_cons_cons, ← List.map_cons, List.append_assoc]
      refine (hFirst.seq ((ih hUs).blank_append hBlank) ?_).imp ?_
      · intro rest _
        exact (hBlank.separates hNonempty).append _ rest
      · rintro vs ⟨a', bs'⟩ ⟨ts', us', rfl, hPhrase, hPhrases⟩ hSame
        obtain ⟨hHead, hTail⟩ := Prod.mk.inj hSame
        refine ⟨a' :: bs', .cons hPhrase hPhrases, ?_⟩
        rw [List.map_cons, hHead, hTail]
        rfl

theorem enclosed {opening closing : Punctuator} (hBlank : Blank separator) (hNonempty : separator ≠ [])
    (hPad : Blank pad) (hCloses : closing ≠ .ellipsis)
    (h : Enclosed opening closing (Reprints D print erase) ts as) (hLexed : Lexed ts) :
    Restores Anything (Enclosed opening closing D) (List.map erase)
      (opening.text.toList ++ (pad ++ (separator.intercalate (as.map print) ++
        (pad ++ closing.text.toList)))) as := by
  cases h with
  | mk _ hItems _ =>
    obtain ⟨-, hLexed⟩ := lexed_cons.mp hLexed
    have hBody := repeated hBlank hNonempty hItems (lexed_append.mp hLexed).1
    have hLast := (sign closing rfl).blank_append hPad
    have hEnd : ∀ rest, Anything rest → Delimited ((pad ++ closing.text.toList) ++ rest) := by
      intro rest _
      cases pad with
      | nil => exact Punctuator.separates hCloses rest
      | cons c cs => exact (hPad.separates (by simp)).append _ rest
    refine ((sign opening rfl).closed_seq ((hBody.seq hLast hEnd).blank_append hPad)).imp ?_
    rintro us ⟨_, as', _⟩ ⟨_, _, rfl, ⟨first, rfl, hFirst⟩, _, _, rfl, hPhrases, last, rfl, hLast⟩ hSame
    simp only [Prod.map, Prod.mk.injEq] at hSame
    exact ⟨as', .mk hFirst hPhrases hLast, hSame.2.1⟩

theorem commaSeparated {opening closing : Punctuator} (hCloses : closing ≠ .ellipsis)
    (h : Enclosed opening closing (Reprints D print erase) ts as) (hLexed : Lexed ts) :
    Restores next (Enclosed opening closing D) (List.map erase)
      (opening.text.toList ++ (GraphQLSyntax.commaSeparated (as.map print) ++ closing.text.toList)) as :=
  (enclosed blank_commaSpace (by simp) blank_nil hCloses h hLexed).weaken

end Restores

/-- What restores a node restores every node that is made of it alone. -/
theorem Reprints.map {α β : Type} {D : Production α} {E : Production β} {print : α → List Char}
    {print' : β → List Char} {erase : α → α} {erase' : β → β} {ts : List Token} {a : α}
    (h : Reprints D print erase ts a) (make : α → β) (hPrint : print' (make a) = print a)
    (hDerives : ∀ us b, D us b → E us (make b)) (hErase : ∀ b, erase' (make b) = make (erase b)) :
    Reprints E print' erase' ts (make a) := by
  intro hLexed
  rw [hPrint]
  refine (h hLexed).map make hDerives ?_
  intro b hSame
  rw [hErase, hErase, hSame]

end GraphQLSyntax
