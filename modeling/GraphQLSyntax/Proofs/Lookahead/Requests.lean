import GraphQLSyntax.Proofs.Lookahead.Steps

/-!
# Requests to a stream

A stream that pulls tokens only when it has to answers like the plain list of its tokens. What a request is told depends
on that list and on how many requests before it consumed a token, and on nothing else that was asked.
-/

set_option autoImplicit false

namespace GraphQLSyntax

namespace TokenStream

/-! ## Streams and what is asked of them -/

/-- What can be asked of a stream. -/
inductive Request where
  | peek
  | peekNth (n : Nat)
  | isAtEnd
  | consume
  deriving DecidableEq, Repr

namespace Request

/-- How many of the tokens to come are looked at and left there. -/
def reach : Request → Nat
  | peek | isAtEnd => 1
  | peekNth n => n + 1
  | consume => 0

def farthest : List Request → Nat
  | [] => 0
  | r :: requests => max r.reach (farthest requests)

end Request

/-- The stream that is left when a request is answered. -/
def serve (s : TokenStream) : Request → TokenStream
  | .peek => s.peek.2
  | .peekNth n => (s.peekNth n).2
  | .isAtEnd => s.isAtEnd.2
  | .consume => s.consume.2

/-- The stream that is left when all requests are answered, one after the other. -/
def serveAll (s : TokenStream) (requests : List Request) : TokenStream :=
  requests.foldl serve s

/-- Pulls one token after the other, until the buffer holds the given number or none is left. -/
def pullUpTo (count : Nat) (buffer : List Token) : List Token → TokenStream
  | [] => ⟨buffer, []⟩
  | t :: pending =>
    if buffer.length < count then pullUpTo count (buffer ++ [t]) pending else ⟨buffer, t :: pending⟩

theorem fill_eq_pullUpTo (count : Nat) (buffer pending : List Token) :
    fill ⟨buffer, pending⟩ count = pullUpTo count buffer pending := by
  induction pending generalizing buffer with
  | nil => simp [fill, pullUpTo]
  | cons t pending ih =>
    rw [pullUpTo]
    split
    · obtain ⟨missing, hMissing⟩ : ∃ missing, count - buffer.length = missing + 1 :=
        ⟨count - buffer.length - 1, by omega⟩
      have hLater : count - (buffer ++ [t]).length = missing := by
        rw [List.length_append, List.length_singleton]
        omega
      rw [← ih]
      simp only [fill, hMissing, hLater, List.take_succ_cons, List.drop_succ_cons, List.append_assoc,
        List.singleton_append]
    · have hEnough : count - buffer.length = 0 := by omega
      simp [fill, hEnough]

/-! ## One request -/

theorem isAtEnd_eq (s : TokenStream) : s.isAtEnd = (Parser.isEnd (nextKind s.toList), (s.peekNth 0).2) := by
  have hFirst := peekNth_fst s 0
  rw [← List.head?_eq_getElem?] at hFirst
  rw [isAtEnd, peek, nextKind, ← hFirst]
  rcases s.peekNth 0 with ⟨_ | t, stream⟩ <;> rfl

theorem isAtEnd_iff (s : TokenStream) :
    s.isAtEnd.1 = true ↔ s.toList.head? = none ∨ ∃ t, s.toList.head? = some t ∧ t.kind = .endOfInput := by
  rw [isAtEnd_eq]
  cases s.toList <;> simp [Parser.isEnd]

theorem toList_serve (s : TokenStream) (r : Request) : (s.serve r).toList = s.toList.drop ([r].count .consume) := by
  cases r with
  | peek => exact toList_peekNth s 0
  | peekNth n => exact toList_peekNth s n
  | isAtEnd =>
    rw [serve, isAtEnd_eq]
    exact toList_peekNth s 0
  | consume =>
    rw [List.count_singleton_self, List.drop_one]
    exact (consume_eq s).2

theorem length_buffer_consume (s : TokenStream) : s.consume.2.buffer.length ≤ s.buffer.length := by
  have hLength := Parser.length_fill_le s 1
  rw [consume]
  generalize s.fill 1 = filled at hLength
  obtain ⟨_ | ⟨t, buffer⟩, pending⟩ := filled
  · exact Nat.zero_le _
  · simp only [List.length_cons] at hLength ⊢
    omega

theorem length_buffer_serve (s : TokenStream) (r : Request) :
    (s.serve r).buffer.length ≤ max s.buffer.length r.reach := by
  cases r with
  | peek => exact Parser.length_fill_le s 1
  | peekNth n => exact Parser.length_fill_le s (n + 1)
  | isAtEnd =>
    rw [serve, isAtEnd_eq]
    exact Parser.length_fill_le s 1
  | consume => exact Nat.le_trans (length_buffer_consume s) (Nat.le_max_left _ _)

/-! ## All requests -/

theorem toList_serveAll (s : TokenStream) (requests : List Request) :
    (s.serveAll requests).toList = s.toList.drop (requests.count .consume) := by
  induction requests generalizing s with
  | nil => rfl
  | cons r requests ih =>
    rw [serveAll, List.foldl_cons, ← serveAll, ih, toList_serve, List.drop_drop, ← List.count_append]
    rfl

theorem length_buffer_serveAll (s : TokenStream) (requests : List Request) :
    (s.serveAll requests).buffer.length ≤ max s.buffer.length (Request.farthest requests) := by
  induction requests generalizing s with
  | nil => exact Nat.le_max_left _ _
  | cons r requests ih =>
    have hFirst := length_buffer_serve s r
    have hRest := ih (s.serve r)
    rw [serveAll, List.foldl_cons, ← serveAll, Request.farthest]
    omega

/-- Whatever was asked before, a request is told what the plain list says behind the tokens that were consumed, one for
each request to consume, as long as there were any. The buffer holds the tokens that were pulled and not consumed, and
never more than the farthest look needed. -/
theorem requests_answered (tokens : List Token) (before : List Request) :
    let s := (ofList tokens).serveAll before
    let consumed := before.count .consume
    s.consume.1 = tokens[consumed]? ∧
      s.peek.1 = tokens[consumed]? ∧
      (∀ n, (s.peekNth n).1 = tokens[consumed + n]?) ∧
      (s.isAtEnd.1 = true ↔ tokens[consumed]? = none ∨ ∃ t, tokens[consumed]? = some t ∧ t.kind = .endOfInput) ∧
      (∀ count, s.fill count = pullUpTo count s.buffer s.pending) ∧
      (∃ pulled, tokens = pulled ++ s.pending ∧ pulled = tokens.take consumed ++ s.buffer ∧
        s.buffer.length = pulled.length - min consumed tokens.length) ∧
      s.buffer.length ≤ Request.farthest before := by
  intro s consumed
  have hRest : s.toList = tokens.drop consumed := toList_serveAll _ _
  refine ⟨?_, ?_, ?_, ?_, ?_, ?_, ?_⟩
  · rw [(consume_eq s).1, hRest, List.head?_drop]
  · rw [peek, peekNth_fst, hRest, List.getElem?_drop, Nat.add_zero]
  · intro n
    rw [peekNth_fst, hRest, List.getElem?_drop]
  · rw [isAtEnd_iff, hRest, List.head?_drop]
  · exact fun count => fill_eq_pullUpTo count s.buffer s.pending
  · have hTokens : tokens = tokens.take consumed ++ s.buffer ++ s.pending := by
      rw [List.append_assoc, ← toList, hRest, List.take_append_drop]
    refine ⟨_, hTokens, rfl, ?_⟩
    rw [List.length_append, List.length_take, Nat.add_sub_cancel_left]
  · have hLength := length_buffer_serveAll (ofList tokens) before
    rwa [show (ofList tokens).buffer.length = 0 from rfl, Nat.zero_max] at hLength

end TokenStream

end GraphQLSyntax
