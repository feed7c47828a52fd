import Mathlib.Data.List.Forall2
import WireSchema.Token.Cursor

/-!
# Requests to a cursor

A cursor serves requests: looks at the tokens ahead, tests of their sorts, and moves over them. Every
request asks for tokens that pass its tests, one by one, and `Cursor.served` says once what can
happen: the tokens ahead pass, and the cursor moves over as many of them as the request takes, or
they do not, and the cursor stays. So along every run of requests the places are in order and within
the list, and the tokens taken are those before the place that is reached (`Cursor.run_faithful`).
-/

namespace WireSchema.Cursor

variable {α : Type} {c c' : Cursor} {ahead read : List Token}

/-! ## Requests and answers -/

/-- What can be asked of a cursor. -/
inductive Request where
  | next
  | peek
  | peekAt (n : Nat)
  | nextIf (s : Symbol)
  | nextIfIdentifier
  | expect (s : Symbol)
  | nextIfAll (ss : List Symbol)
  | line
  | testIf (s : Symbol)
  | testIfAll (ss : List Symbol)

/-- What a cursor answers. -/
inductive Answer where
  | token (found : Option Token)
  | identifier (found : Option (String × UInt32))
  | expected (outcome : Except GrammarFault Token)
  | phrase (found : Option (List Token))
  | line (n : UInt32)
  | verdict (holds : Bool)

/-- Answers a request, with the cursor after it. -/
def serve (c : Cursor) : Request → Answer × Cursor
  | .next => c.next.map .token id
  | .peek => (.token c.peek, c)
  | .peekAt n => (.token (c.peekAt n), c)
  | .nextIf s => (c.nextIf s).map .token id
  | .nextIfIdentifier => c.nextIfIdentifier.map .identifier id
  | .expect s => (c.expect s).map .expected id
  | .nextIfAll ss => (c.nextIfAll ss).map .phrase id
  | .line => (.line c.line, c)
  | .testIf s => (.verdict (c.testIf s), c)
  | .testIfAll ss => (.verdict (testIfAll ss c.ahead), c)

namespace Answer

/-- Whether an answer is a refusal: nothing is found, there is a fault, or a test fails. -/
def refuses : Answer → Bool
  | token found => found.isNone
  | identifier found => found.isNone
  | expected outcome => outcome.toOption.isNone
  | phrase found => found.isNone
  | line _ => false
  | verdict holds => !holds

/-- The tokens in an answer. A name and a line are those of an identifier. -/
def given : Answer → List Token
  | token found => found.toList
  | identifier found => found.toList.map fun found => ⟨found.2, .identifier found.1⟩
  | expected outcome => outcome.toOption.toList
  | phrase found => found.getD []
  | line _ | verdict _ => []

end Answer

namespace Request

/-- The tests that the tokens ahead have to pass, one by one, for a request to be granted. -/
def tests : Request → List (Token → Bool)
  | next | peek => [fun _ => true]
  | peekAt n => List.replicate (n + 1) fun _ => true
  | nextIf s | expect s | testIf s => [fun t => t.symbol.sameSort s]
  | nextIfIdentifier => [fun t => t.symbol.sameSort (.identifier "")]
  | nextIfAll ss | testIfAll ss => ss.map fun s t => t.symbol.sameSort s
  | line => []

/-- There is a token for every test of a request, and it passes. -/
def Met (r : Request) (ahead : List Token) : Prop :=
  List.Forall₂ (fun test t => test t = true) r.tests (ahead.take r.tests.length)

/-- Whether a request moves the cursor over the tokens that it finds. -/
def takes : Request → Bool
  | next | nextIf _ | nextIfIdentifier | expect _ | nextIfAll _ => true
  | peek | peekAt _ | line | testIf _ | testIfAll _ => false

/-- How far a request moves the cursor when it is granted. -/
def advance (r : Request) : Nat :=
  if r.takes then r.tests.length else 0

/-- What is given of the tokens found: all if they are taken, the last for a look, none for a
test. -/
def shown : Request → List Token → List Token
  | next, found | nextIf _, found | nextIfIdentifier, found | expect _, found
  | nextIfAll _, found => found
  | peek, found | peekAt _, found => found.getLast?.toList
  | line, _ | testIf _, _ | testIfAll _, _ => []

/-- The tokens that the caller takes with an answer. -/
def taken (r : Request) (a : Answer) : List Token :=
  if r.takes then a.given else []

variable {r : Request}

theorem shown_of_takes (h : r.takes = true) (found : List Token) : r.shown found = found := by
  cases r with
  | next | nextIf _ | nextIfIdentifier | expect _ | nextIfAll _ => rfl
  | peek | peekAt _ | line | testIf _ | testIfAll _ => cases h

theorem Met.length_le (h : r.Met ahead) : r.tests.length ≤ ahead.length := by
  have hlength := h.length_eq
  rw [List.length_take] at hlength
  omega

theorem Met.advance_le (h : r.Met ahead) : r.advance ≤ ahead.length := by
  have hle := h.length_le
  unfold advance
  split <;> omega

theorem met_single_iff {test : Token → Bool} (h : r.tests = [test]) :
    r.Met ahead ↔ ∃ t rest, ahead = t :: rest ∧ test t = true := by
  unfold Met
  rw [h]
  cases ahead with
  | nil => simp
  | cons t rest => simp

theorem met_replicate_iff {n : Nat} (h : r.tests = List.replicate (n + 1) fun _ => true) :
    r.Met ahead ↔ n < ahead.length := by
  unfold Met
  rw [h, List.forall₂_iff_get]
  simp only [List.length_replicate, List.length_take, List.get_eq_getElem, List.getElem_replicate,
    implies_true, and_true]
  omega

theorem met_sorts_iff {ss : List Symbol} (h : r.tests = ss.map fun s t => t.symbol.sameSort s) :
    r.Met ahead ↔ Cursor.testIfAll ss ahead = true := by
  unfold Met
  rw [h, List.length_map, List.forall₂_map_left_iff]
  -- the induction changes the sorts, so it cannot keep what they are the tests of
  clear h
  fun_induction Cursor.testIfAll ss ahead with
  | case1 => simp
  | case2 s ss t ts ih => simp [ih]
  | case3 => simp

end Request

/-! ## What a request can do -/

/-- `Served c r a c'`: what can happen when a cursor serves a request. It is granted, and the cursor
moves as far as the request takes it, or it is refused, and the cursor stays. -/
inductive Served (c : Cursor) (r : Request) (a : Answer) : Cursor → Prop where
  | granted (met : r.Met c.ahead) (accepts : a.refuses = false)
    (given : a.given = r.shown (c.ahead.take r.tests.length)) : Served c r a (c.skip r.advance)
  | refused (unmet : ¬ r.Met c.ahead) (refuses : a.refuses = true) (given : a.given = []) :
    Served c r a c

variable {r : Request} {a : Answer}

theorem Served.granted_of_not_takes (htakes : r.takes = false) (met : r.Met c.ahead)
    (accepts : a.refuses = false) (given : a.given = r.shown (c.ahead.take r.tests.length)) :
    Served c r a c := by
  have hadvance : r.advance = 0 := by simp [Request.advance, htakes]
  have key := Served.granted met accepts given
  rwa [hadvance] at key

theorem nextIfSome_cases (f : Token → Option α) (c : Cursor) :
    (∃ t rest a, c.ahead = t :: rest ∧ f t = some a ∧ c.nextIfSome f = (some a, c.skip 1)) ∨
      ((∀ t rest, c.ahead = t :: rest → f t = none) ∧ c.nextIfSome f = (none, c)) := by
  obtain ⟨passed, ahead⟩ := c
  cases ahead with
  | nil => exact .inr ⟨by simp, rfl⟩
  | cons t rest =>
    cases ht : f t with
    | none => exact .inr ⟨by simp [ht], by simp [nextIfSome, ht]⟩
    | some a => exact .inl ⟨t, rest, a, rfl, ht, by simp [nextIfSome, ht, skip]⟩

/-- Requests that take one token differ in what they accept and in how they answer. -/
theorem served_nextIfSome {f : Token → Option α} (answer : Option α → Answer) {test : Token → Bool}
    (htests : r.tests = [test]) (htakes : r.takes = true)
    (hsome : ∀ t a, f t = some a →
      test t = true ∧ (answer (some a)).refuses = false ∧ (answer (some a)).given = [t])
    (hnone : ∀ t, f t = none → test t = false)
    (hrefuses : (answer none).refuses = true ∧ (answer none).given = []) :
    Served c r (answer (c.nextIfSome f).1) (c.nextIfSome f).2 := by
  obtain ⟨t, rest, a, hahead, ha, heq⟩ | ⟨hf, heq⟩ := nextIfSome_cases f c
  · obtain ⟨htest, haccepts, hgiven⟩ := hsome t a ha
    have hadvance : r.advance = 1 := by simp [Request.advance, htakes, htests]
    have hmet : r.Met c.ahead := (Request.met_single_iff htests).2 ⟨t, rest, hahead, htest⟩
    rw [heq, ← hadvance]
    refine .granted hmet haccepts ?_
    rw [hgiven, Request.shown_of_takes htakes, htests, hahead]
    rfl
  · have hunmet : ¬ r.Met c.ahead := by
      rw [Request.met_single_iff htests]
      rintro ⟨t, rest, hahead, htest⟩
      rw [hnone t (hf t rest hahead)] at htest
      cases htest
    rw [heq]
    exact .refused hunmet hrefuses.1 hrefuses.2

theorem next_eq_nextIfSome (c : Cursor) : c.next = c.nextIfSome some := by
  unfold next nextIfSome
  split <;> rfl

theorem expect_eq (s : Symbol) (c : Cursor) :
    c.expect s =
      ((c.nextIf s).1.elim (.error ⟨c.line, .expected [s] (c.peek.map Token.symbol)⟩) .ok,
        (c.nextIf s).2) := by
  unfold expect nextIf
  obtain ⟨t, rest, a, -, -, heq⟩ | ⟨-, heq⟩ :=
    nextIfSome_cases (fun t => if t.symbol.sameSort s then some t else none) c
  · simp [heq]
  · simp [heq]

/-- A request for one token of a sort. -/
theorem served_nextIf {s : Symbol} (answer : Option Token → Answer)
    (htests : r.tests = [fun t => t.symbol.sameSort s]) (htakes : r.takes = true)
    (hsome : ∀ t, (answer (some t)).refuses = false ∧ (answer (some t)).given = [t])
    (hnone : (answer none).refuses = true ∧ (answer none).given = []) :
    Served c r (answer (c.nextIf s).1) (c.nextIf s).2 := by
  refine served_nextIfSome answer htests htakes ?_ ?_ hnone
  · intro t a h
    obtain ⟨hsort, ha⟩ := Option.ite_none_right_eq_some.1 h
    cases ha
    exact ⟨hsort, hsome t⟩
  · intro t h
    simpa using h

/-- A look shows the token some places ahead, and moves nothing. -/
theorem served_look {n : Nat} (htests : r.tests = List.replicate (n + 1) fun _ => true)
    (htakes : r.takes = false) (hshown : ∀ found, r.shown found = found.getLast?.toList) :
    Served c r (.token c.ahead[n]?) c := by
  by_cases hn : n < c.ahead.length
  · refine .granted_of_not_takes htakes ((Request.met_replicate_iff htests).2 hn) ?_ ?_
    · simp [Answer.refuses, hn]
    · simp [hshown, htests, Answer.given, List.getLast?_take, hn]
  · refine .refused (mt (Request.met_replicate_iff htests).1 hn) ?_ ?_
    · simp [Answer.refuses, Nat.le_of_not_lt hn]
    · simp [Answer.given, Nat.le_of_not_lt hn]

/-- A test of sorts moves nothing. -/
theorem served_test {ss : List Symbol} (htests : r.tests = ss.map fun s t => t.symbol.sameSort s)
    (htakes : r.takes = false) (hshown : ∀ found, r.shown found = []) :
    Served c r (.verdict (testIfAll ss c.ahead)) c := by
  cases hall : testIfAll ss c.ahead with
  | true =>
    have hmet : r.Met c.ahead := (Request.met_sorts_iff htests).2 hall
    exact Served.granted_of_not_takes htakes hmet rfl (hshown _).symm
  | false =>
    refine .refused ?_ rfl rfl
    rw [Request.met_sorts_iff htests, hall]
    exact Bool.false_ne_true

theorem testIf_eq_testIfAll (s : Symbol) (c : Cursor) : c.testIf s = testIfAll [s] c.ahead := by
  unfold testIf
  cases c.ahead with
  | nil => rfl
  | cons t rest => simp [testIfAll]

theorem served_nextIfAll (ss : List Symbol) (c : Cursor) :
    Served c (.nextIfAll ss) (.phrase (c.nextIfAll ss).1) (c.nextIfAll ss).2 := by
  have hmet : (Request.nextIfAll ss).Met c.ahead ↔ testIfAll ss c.ahead = true :=
    Request.met_sorts_iff rfl
  have hlength : (Request.nextIfAll ss).tests.length = ss.length := List.length_map _
  unfold nextIfAll
  split
  · next hall =>
    have hadvance : (Request.nextIfAll ss).advance = ss.length := hlength
    rw [← hadvance]
    refine .granted (hmet.2 hall) rfl ?_
    rw [hlength, hadvance]
    rfl
  · next hall => exact .refused (mt hmet.1 hall) rfl rfl

theorem served (c : Cursor) (r : Request) : Served c r (c.serve r).1 (c.serve r).2 := by
  cases r with
  | next =>
    change Served c .next (.token c.next.1) c.next.2
    rw [next_eq_nextIfSome]
    refine served_nextIfSome .token rfl rfl ?_ (by simp) ⟨rfl, rfl⟩
    intro t a h
    cases h
    exact ⟨rfl, rfl, rfl⟩
  | peek =>
    change Served c .peek (.token c.ahead.head?) c
    rw [List.head?_eq_getElem?]
    exact served_look rfl rfl fun _ => rfl
  | peekAt n => exact served_look rfl rfl fun _ => rfl
  | nextIf s => exact served_nextIf .token rfl rfl (fun _ => ⟨rfl, rfl⟩) ⟨rfl, rfl⟩
  | nextIfIdentifier =>
    refine served_nextIfSome .identifier rfl rfl ?_ ?_ ⟨rfl, rfl⟩
    · rintro ⟨line, symbol⟩ a h
      cases symbol with
      | identifier name =>
        cases h
        exact ⟨rfl, rfl, rfl⟩
      | integer _ | float _ | string _ | ordinal _ | keyword _ | punct _ => cases h
    · rintro ⟨line, symbol⟩ h
      cases symbol with
      | identifier name => cases h
      | integer _ | float _ | string _ | ordinal _ | keyword _ | punct _ => rfl
  | expect s =>
    change Served c (.expect s) (.expected (c.expect s).1) (c.expect s).2
    rw [expect_eq]
    exact served_nextIf (fun found => .expected (found.elim (.error _) .ok)) rfl rfl
      (fun _ => ⟨rfl, rfl⟩) ⟨rfl, rfl⟩
  | nextIfAll ss => exact served_nextIfAll ss c
  | line => exact .granted .nil rfl rfl
  | testIf s =>
    change Served c (.testIf s) (.verdict (c.testIf s)) c
    rw [testIf_eq_testIfAll]
    exact served_test rfl rfl fun _ => rfl
  | testIfAll ss => exact served_test rfl rfl fun _ => rfl

/-! ## Places -/

theorem drop_index (c : Cursor) : c.tokens.drop c.index = c.ahead := by
  simp [tokens, index]

theorem take_index (c : Cursor) : c.tokens.take c.index = c.passed.reverse := by
  simp [tokens, index]

theorem index_le (c : Cursor) : c.index ≤ c.tokens.length := by
  simp [tokens, index]

theorem index_skip {n : Nat} (h : n ≤ c.ahead.length) : (c.skip n).index = c.index + n := by
  unfold skip index
  rw [List.length_append, List.length_reverse, List.length_take]
  omega

/-- The tokens read from the start of a list on are those before the place that is reached. -/
theorem Advances.eq_take {tokens : List Token} (h : (ofTokens tokens).Advances c)
    (hread : tokens = read ++ c.ahead) : read = tokens.take c.index := by
  have htokens : c.tokens = tokens := h.tokens_eq
  have hsplit : c.passed.reverse ++ c.ahead = read ++ c.ahead := htokens.trans hread
  rw [← htokens, take_index]
  exact (List.append_cancel_right hsplit).symm

theorem Served.advances (h : Served c r a c') : c.Advances c' := by
  cases h with
  | granted => exact advances_skip _ c
  | refused => exact .refl c

/-- A request moves the cursor over the tokens that the caller takes with the answer. -/
theorem Served.ahead_eq (h : Served c r a c') : c.ahead = r.taken a ++ c'.ahead := by
  cases h with
  | granted met accepts given =>
    have htaken : r.taken a = c.ahead.take r.advance := by
      unfold Request.taken Request.advance
      split
      · next htakes => rw [given, Request.shown_of_takes htakes]
      · rfl
    rw [htaken]
    exact (List.take_append_drop _ _).symm
  | refused unmet refuses given => simp [Request.taken, given]

/-! ## Runs -/

/-- One step of a run: a request with its answer, and the places before and after it. -/
structure Step where
  request : Request
  start : Nat
  answer : Answer
  stop : Nat

/-- The tokens that the caller takes in a step. -/
def Step.taken (step : Step) : List Token :=
  step.request.taken step.answer

/-- Serves requests one after the other. -/
def run : Cursor → List Request → List Step × Cursor
  | c, [] => ([], c)
  | c, r :: rest =>
    let (answer, c') := c.serve r
    let (steps, last) := c'.run rest
    (⟨r, c.index, answer, c'.index⟩ :: steps, last)

/-- What a step does at its place in the list: it never goes back or beyond the end, stays where it
is if it is refused, and is refused exactly if the tokens there do not meet the request. -/
structure Step.Faithful (tokens : List Token) (step : Step) : Prop where
  forward : step.start ≤ step.stop
  within : step.stop ≤ tokens.length
  stays : step.answer.refuses = true → step.stop = step.start
  refuses_iff : step.answer.refuses = true ↔ ¬ step.request.Met (tokens.drop step.start)
  granted : step.request.Met (tokens.drop step.start) →
    step.stop = step.start + step.request.advance ∧
    step.answer.given =
      step.request.shown ((tokens.drop step.start).take step.request.tests.length)

theorem Served.faithful (h : Served c r a c') :
    Step.Faithful c.tokens ⟨r, c.index, a, c'.index⟩ := by
  have hwithin : c'.index ≤ c.tokens.length := by
    rw [← h.advances.tokens_eq]
    exact c'.index_le
  cases h with
  | granted met accepts given =>
    -- every test has found its token, so there are as many tokens as the cursor moves over
    have hindex := index_skip met.advance_le
    constructor
    case forward => simp [hindex]
    case within => exact hwithin
    case stays => simp [accepts]
    case refuses_iff => simp [accepts, drop_index, met]
    case granted =>
      intro _
      exact ⟨hindex, by rw [drop_index]; exact given⟩
  | refused unmet refuses given =>
    constructor
    case forward => exact Nat.le_refl _
    case within => exact hwithin
    case stays => exact fun _ => rfl
    case refuses_iff => simp [refuses, drop_index, unmet]
    case granted =>
      intro hmet
      rw [drop_index] at hmet
      exact absurd hmet unmet

theorem faithful_of_mem_run (requests : List Request) (c : Cursor) :
    ∀ step ∈ (c.run requests).1, step.Faithful c.tokens := by
  induction requests generalizing c with
  | nil => exact List.forall_mem_nil _
  | cons r rest ih =>
    have hserved := c.served r
    have htail := ih (c.serve r).2
    rw [hserved.advances.tokens_eq] at htail
    exact List.forall_mem_cons.2 ⟨hserved.faithful, htail⟩

theorem index_le_start_of_mem_run (requests : List Request) (c : Cursor) :
    ∀ step ∈ (c.run requests).1, c.index ≤ step.start := by
  induction requests generalizing c with
  | nil => exact List.forall_mem_nil _
  | cons r rest ih =>
    have hforward : c.index ≤ (c.serve r).2.index := (c.served r).faithful.forward
    refine List.forall_mem_cons.2 ⟨Nat.le_refl _, fun step hstep => ?_⟩
    exact Nat.le_trans hforward (ih (c.serve r).2 step hstep)

theorem pairwise_stop_run (requests : List Request) (c : Cursor) :
    (c.run requests).1.Pairwise fun step later => step.stop ≤ later.stop := by
  induction requests generalizing c with
  | nil => exact .nil
  | cons r rest ih =>
    refine .cons ?_ (ih (c.serve r).2)
    intro later hlater
    have hstart := index_le_start_of_mem_run rest (c.serve r).2 later hlater
    have hforward := (faithful_of_mem_run rest (c.serve r).2 later hlater).forward
    exact Nat.le_trans hstart hforward

theorem advances_run (requests : List Request) (c : Cursor) :
    c.Advances (c.run requests).2 := by
  induction requests generalizing c with
  | nil => exact .refl c
  | cons r rest ih => exact (c.served r).advances.trans (ih (c.serve r).2)

theorem ahead_run (requests : List Request) (c : Cursor) :
    c.ahead = (c.run requests).1.flatMap Step.taken ++ (c.run requests).2.ahead := by
  induction requests generalizing c with
  | nil => rfl
  | cons r rest ih =>
    calc c.ahead = r.taken (c.serve r).1 ++ (c.serve r).2.ahead := (c.served r).ahead_eq
      _ = r.taken (c.serve r).1 ++ (((c.serve r).2.run rest).1.flatMap Step.taken ++
            ((c.serve r).2.run rest).2.ahead) := by rw [← ih]
      _ = (c.run (r :: rest)).1.flatMap Step.taken ++ (c.run (r :: rest)).2.ahead :=
        (List.append_assoc _ _ _).symm

/-- Requests of any kind and number take the tokens of a list in order, without a gap: the place
never exceeds the number of tokens and never decreases, a request that is refused leaves it
unchanged, and the tokens taken are those before it. -/
theorem run_faithful (tokens : List Token) (requests : List Request) :
    let run := (ofTokens tokens).run requests
    (∀ step ∈ run.1, step.Faithful tokens) ∧
      (run.1.Pairwise fun step later => step.stop ≤ later.stop) ∧
      run.2.index ≤ tokens.length ∧
      run.1.flatMap Step.taken = tokens.take run.2.index := by
  have hadvances := advances_run requests (ofTokens tokens)
  refine ⟨faithful_of_mem_run requests (ofTokens tokens),
    pairwise_stop_run requests (ofTokens tokens), ?_, ?_⟩
  · have hle := ((ofTokens tokens).run requests).2.index_le
    rwa [hadvances.tokens_eq] at hle
  · exact hadvances.eq_take (ahead_run requests (ofTokens tokens))

/-- Two sorts are asked for where one token is left: the request is refused, and the token is still
there. -/
example :
    let tokens : List Token :=
      [⟨1, .keyword .structWord⟩, ⟨2, .identifier "Foo"⟩, ⟨2, .punct .lbracket⟩]
    let requests : List Request :=
      [.nextIf (.keyword .enumWord), .next, .nextIfIdentifier,
        .nextIfAll [.punct .lbracket, .punct .rbracket], .expect (.punct .lbracket), .next]
    ((ofTokens tokens).run requests).1.map (fun step => (step.stop, step.answer.refuses)) =
      [(0, true), (1, false), (2, false), (2, true), (3, false), (3, true)] := by
  decide

end WireSchema.Cursor
