import Scriptlet.Syntax.Reading

/-!
# Outcomes of readings

The outcome of a reading is its value or its refusal together with the tokens that are left, without
the bound on their number. Outcomes of readings on different tokens can be compared, and a reader
that is put together by `Reading.andThen` is a chain of `Outcome.bind`.

* `Reading.outcome` is the view; `Reading.outcome_andThen` and its companions say what each
  operation does to it.
* `Reads language read tokens` is what is proved of every reader: on `tokens` it takes a phrase of
  the language, or the beginning of one, and it looks at no token behind the first that it leaves.
* `Reads.bind` puts two readers together.
* `afterElement` is how a list between commas goes on; `Reads.afterElement` reads it.
-/

namespace Scriptlet

variable {α β : Type}

/-- What a `Reading` gives, without its bound on the tokens that are left. -/
structure Outcome (α : Type) where
  /-- The value of the phrase, or the `Expectation` that was not met. -/
  result : Except Expectation α
  /-- The tokens that are left. -/
  rest : List Token

namespace Outcome

/-- Goes on with `second` where `first` has a value, and keeps its refusal otherwise. -/
def bind (first : Outcome α) (second : α → List Token → Outcome β) : Outcome β :=
  match first.result with
  | .ok value => second value first.rest
  | .error expected => ⟨.error expected, first.rest⟩

def map (f : α → β) (outcome : Outcome α) : Outcome β :=
  outcome.bind fun value rest => ⟨.ok (f value), rest⟩

@[simp]
theorem bind_ok (value : α) (rest : List Token) (second : α → List Token → Outcome β) :
    bind ⟨.ok value, rest⟩ second = second value rest := rfl

@[simp]
theorem bind_error (expected : Expectation) (rest : List Token)
    (second : α → List Token → Outcome β) :
    bind ⟨.error expected, rest⟩ second = ⟨.error expected, rest⟩ := rfl

@[simp]
theorem map_ok (f : α → β) (value : α) (rest : List Token) :
    map f ⟨.ok value, rest⟩ = ⟨.ok (f value), rest⟩ := rfl

end Outcome

namespace Reading

variable {tokens : List Token}

/-- The `Outcome` of a `Reading`: the proof in `.complete` that `rest` is shorter is dropped. -/
def outcome : Reading α tokens → Outcome α
  | .complete value rest _ => ⟨.ok value, rest⟩
  | .refused expected rest => ⟨.error expected, rest⟩

@[simp]
theorem outcome_complete (value : α) (rest : List Token) (shorter : rest.length < tokens.length) :
    (complete value rest shorter).outcome = ⟨.ok value, rest⟩ := rfl

@[simp]
theorem outcome_refused (expected : Expectation) (rest : List Token) :
    (refused expected rest : Reading α tokens).outcome = ⟨.error expected, rest⟩ := rfl

@[simp]
theorem outcome_map (f : α → β) (reading : Reading α tokens) :
    (reading.map f).outcome = reading.outcome.map f := by
  cases reading <;> rfl

@[simp]
theorem outcome_widen {later : List Token} (longer : later.length < tokens.length)
    (reading : Reading α later) : (reading.widen longer).outcome = reading.outcome := by
  cases reading <;> rfl

@[simp]
theorem outcome_andThen (first : Reading α tokens)
    (second : α → (rest : List Token) → Reading β rest) :
    (first.andThen fun value rest _ => second value rest).outcome =
      first.outcome.bind fun value rest => (second value rest).outcome := by
  cases first with
  | complete value rest shorter => exact outcome_widen shorter (second value rest)
  | refused expected rest => rfl

theorem rest_eq (reading : Reading α tokens) : reading.rest = reading.outcome.rest := by
  cases reading <;> rfl

/-- The `Reading.result` of a refusal is a syntax error at the tokens that are left. -/
theorem result_eq (reading : Reading α tokens) :
    reading.result = reading.outcome.result.mapError (.expecting · reading.outcome.rest) := by
  cases reading <;> rfl

theorem length_rest_lt {reading : Reading α tokens} {value : α} {rest : List Token}
    (h : reading.outcome = ⟨.ok value, rest⟩) : rest.length < tokens.length := by
  cases reading with
  | complete value' rest' shorter =>
    rw [outcome_complete, Outcome.mk.injEq] at h
    exact h.2 ▸ shorter
  | refused expected rest' => simp at h

/-- A reading with the outcome of a complete one is complete, with some proof `shorter`. -/
theorem eq_complete_of_outcome {reading : Reading α tokens} {value : α} {rest : List Token}
    (h : reading.outcome = ⟨.ok value, rest⟩) :
    ∃ shorter, reading = .complete value rest shorter := by
  cases reading with
  | complete value' rest' shorter =>
    rw [outcome_complete, Outcome.mk.injEq, Except.ok.injEq] at h
    obtain ⟨rfl, rfl⟩ := h
    exact ⟨shorter, rfl⟩
  | refused expected rest' => simp at h

end Reading

@[simp]
theorem outcome_takeToken (token : Token) (rest : List Token) :
    (takeToken token rest).outcome = ⟨.ok token, rest⟩ := rfl

theorem outcome_expect_of_kind {kind : Token.Kind} {token : Token} (h : token.kind = kind)
    (expected : Expectation) (rest : List Token) :
    (expect kind expected (token :: rest)).outcome = ⟨.ok token, rest⟩ := by
  simp [expect, h]

theorem outcome_expect_of_kind_ne {kind : Token.Kind} {token : Token} (h : token.kind ≠ kind)
    (expected : Expectation) (rest : List Token) :
    (expect kind expected (token :: rest)).outcome = ⟨.error expected, token :: rest⟩ := by
  simp [expect, h]

/-- What a reader of `language` may have taken with some result: a phrase with its value, or,
before a refusal, the beginning of some phrase. -/
def Fits (language : List Token → α → Prop) (used : List Token) : Except Expectation α → Prop
  | .ok value => language used value
  | .error _ => ∃ more value, language (used ++ more) value

/-- On `tokens`, the reader `read` takes tokens `used` that fit `language` and leaves `rest`.
It would do the same in front of any `other` tokens with the same first one: it looks ahead by
one token at most. -/
def Reads (language : List Token → α → Prop) (read : List Token → Outcome α)
    (tokens : List Token) : Prop :=
  ∃ used rest result, tokens = used ++ rest ∧ Fits language used result ∧
    ∀ other, other.head? = rest.head? → read (used ++ other) = ⟨result, other⟩

theorem head?_append_congr {used rest other : List Token} (h : other.head? = rest.head?) :
    (used ++ other).head? = (used ++ rest).head? := by
  cases used with
  | nil => exact h
  | cons token used => rfl

namespace Reads

variable {language : List Token → α → Prop} {read : List Token → Outcome α} {tokens : List Token}

theorem exists_phrase (h : Reads language read tokens) : ∃ phrase value, language phrase value := by
  obtain ⟨used, rest, result, -, hfits, -⟩ := h
  cases result with
  | ok value => exact ⟨used, value, hfits⟩
  | error expected =>
    obtain ⟨more, value, hphrase⟩ := hfits
    exact ⟨used ++ more, value, hphrase⟩

theorem mono {larger : List Token → α → Prop} (h : Reads language read tokens)
    (hsub : ∀ phrase value, language phrase value → larger phrase value) :
    Reads larger read tokens := by
  obtain ⟨used, rest, result, htokens, hfits, hread⟩ := h
  refine ⟨used, rest, result, htokens, ?_, hread⟩
  cases result with
  | ok value => exact hsub _ _ hfits
  | error expected =>
    obtain ⟨more, value, hphrase⟩ := hfits
    exact ⟨more, value, hsub _ _ hphrase⟩

/-- Only what `read` does on lists with the first token of `tokens` matters to `Reads`. -/
theorem congr {other : List Token → Outcome α} (h : Reads language other tokens)
    (heq : ∀ list, list.head? = tokens.head? → read list = other list) :
    Reads language read tokens := by
  obtain ⟨used, rest, result, htokens, hfits, hread⟩ := h
  refine ⟨used, rest, result, htokens, hfits, fun list hlist => ?_⟩
  rw [heq _ (htokens ▸ head?_append_congr hlist), hread list hlist]

/-- A reader that decides on the first token and does not take it. -/
theorem of_head (result : Except Expectation α)
    (heq : ∀ list, list.head? = tokens.head? → read list = ⟨result, list⟩)
    (hfits : Fits language [] result) : Reads language read tokens :=
  ⟨[], tokens, result, rfl, hfits, heq⟩

theorem refused_nil {expected : Expectation} (heq : read [] = ⟨.error expected, []⟩)
    (hphrase : ∃ phrase value, language phrase value) : Reads language read [] := by
  refine of_head (.error expected) (fun list hlist => ?_) hphrase
  rw [List.head?_nil, List.head?_eq_none_iff] at hlist
  rw [hlist, heq]

theorem refused_cons {expected : Expectation} {token : Token} {rest : List Token}
    (heq : ∀ list, read (token :: list) = ⟨.error expected, token :: list⟩)
    (hphrase : ∃ phrase value, language phrase value) : Reads language read (token :: rest) := by
  refine of_head (.error expected) (fun list hlist => ?_) hphrase
  obtain ⟨list', rfl⟩ := List.head?_eq_some_iff.mp hlist
  exact heq list'

/-- A reader that takes the first token and goes on as `next`. -/
theorem cons {next : List Token → Outcome α} {token : Token} {rest : List Token}
    (h : Reads (fun phrase value => language (token :: phrase) value) next rest)
    (heq : ∀ list, read (token :: list) = next list) : Reads language read (token :: rest) := by
  obtain ⟨used, left, result, rfl, hfits, hread⟩ := h
  refine ⟨token :: used, left, result, rfl, ?_, fun list hlist => ?_⟩
  · cases result with
    | ok value => exact hfits
    | error expected => exact hfits
  · rw [List.cons_append, heq, hread list hlist]

/-- A reader that goes on as `second` where `first` ends. What may follow a phrase `used` of
`firstLanguage` depends on it, so `second` reads what is left of `language` behind `used`. -/
theorem bind {firstLanguage : List Token → β → Prop} {first : List Token → Outcome β}
    {second : β → List Token → Outcome α} (hfirst : Reads firstLanguage first tokens)
    (hsecond : ∀ used value rest, tokens = used ++ rest → firstLanguage used value →
      first tokens = ⟨.ok value, rest⟩ →
      Reads (fun phrase => language (used ++ phrase)) (second value) rest)
    (hmore : ∀ used value, firstLanguage used value →
      ∃ more result, language (used ++ more) result) :
    Reads language (fun list => (first list).bind second) tokens := by
  obtain ⟨used, rest, result, htokens, hfits, hread⟩ := hfirst
  cases result with
  | error expected =>
    -- The first phrase is unfinished: finish it, and then the whole.
    refine ⟨used, rest, .error expected, htokens, ?_, fun list hlist => ?_⟩
    · obtain ⟨more, value, hphrase⟩ := hfits
      obtain ⟨more', result, hwhole⟩ := hmore _ _ hphrase
      exact ⟨more ++ more', result, by rwa [← List.append_assoc]⟩
    · show (first (used ++ list)).bind second = _
      rw [hread list hlist, Outcome.bind_error]
  | ok value =>
    have hhere : first tokens = ⟨.ok value, rest⟩ := htokens ▸ hread rest rfl
    obtain ⟨used', rest', result', rfl, hfits', hread'⟩ :=
      hsecond used value rest htokens hfits hhere
    refine ⟨used ++ used', rest', result', by rw [htokens, List.append_assoc], ?_,
      fun list hlist => ?_⟩
    · cases result' with
      | ok value' => exact hfits'
      | error expected =>
        obtain ⟨more, value', hwhole⟩ := hfits'
        exact ⟨more, value', by rwa [List.append_assoc]⟩
    · show (first (used ++ used' ++ list)).bind second = _
      rw [List.append_assoc, hread _ (head?_append_congr hlist), Outcome.bind_ok,
        hread' list hlist]

/-- The case of `Reads.bind` in which `second` reads every `rest`, wherever `first` ended. -/
theorem andThen {firstLanguage : List Token → β → Prop} {first : List Token → Outcome β}
    {second : β → List Token → Outcome α} (hfirst : Reads firstLanguage first tokens)
    (hsecond : ∀ used value, firstLanguage used value → ∀ rest,
      Reads (fun phrase => language (used ++ phrase)) (second value) rest) :
    Reads language (fun list => (first list).bind second) tokens :=
  hfirst.bind (fun used value rest _ hphrase _ => hsecond used value hphrase rest)
    (fun used value hphrase => (hsecond used value hphrase []).exists_phrase)

theorem map {larger : List Token → β → Prop} {f : α → β} (h : Reads language read tokens)
    (hsub : ∀ phrase value, language phrase value → larger phrase (f value)) :
    Reads larger (fun list => (read list).map f) tokens := by
  obtain ⟨used, rest, result, htokens, hfits, hread⟩ := h
  cases result with
  | ok value =>
    refine ⟨used, rest, .ok (f value), htokens, hsub _ _ hfits, fun list hlist => ?_⟩
    show (read (used ++ list)).map f = _
    rw [hread list hlist, Outcome.map_ok]
  | error expected =>
    obtain ⟨more, value, hphrase⟩ := hfits
    refine ⟨used, rest, .error expected, htokens, ⟨more, f value, hsub _ _ hphrase⟩,
      fun list hlist => ?_⟩
    show (read (used ++ list)).map f = _
    rw [hread list hlist]
    rfl

end Reads

/-- The language of `expect kind` has the single tokens of that kind. -/
theorem reads_expect (kind : Token.Kind) (expected : Expectation) (tokens : List Token) :
    Reads (fun phrase token => phrase = [token] ∧ token.kind = kind)
      (fun list => (expect kind expected list).outcome) tokens := by
  have hphrase : ∃ (phrase : List Token) (token : Token), phrase = [token] ∧ token.kind = kind :=
    ⟨_, ⟨kind, "", 0⟩, rfl, rfl⟩
  cases tokens with
  | nil => exact .refused_nil rfl hphrase
  | cons token rest =>
    by_cases h : token.kind = kind
    · refine ⟨[token], rest, .ok token, rfl, ⟨rfl, h⟩, fun list _ => ?_⟩
      exact outcome_expect_of_kind h expected list
    · exact .refused_cons (outcome_expect_of_kind_ne h expected) hphrase

/-- A reader that takes one token of kind `kind` and goes on as `second`. -/
theorem Reads.expect_bind {language : List Token → α → Prop} {kind : Token.Kind}
    {second : Token → List Token → Outcome α}
    (h : ∀ token, token.kind = kind → ∀ rest,
      Reads (fun phrase => language (token :: phrase)) (second token) rest)
    (expected : Expectation) (tokens : List Token) :
    Reads language (fun list => (expect kind expected list).outcome.bind second) tokens := by
  refine .andThen (reads_expect kind expected tokens) ?_
  rintro used token ⟨rfl, hkind⟩
  exact h token hkind

/-- A reader that ends with one token of kind `kind`. -/
theorem Reads.expect_map {language : List Token → α → Prop} {kind : Token.Kind} {f : Token → α}
    (h : ∀ token, token.kind = kind → language [token] (f token)) (expected : Expectation)
    (tokens : List Token) :
    Reads language (fun list => (expect kind expected list).outcome.map f) tokens := by
  refine .map (reads_expect kind expected tokens) ?_
  rintro phrase token ⟨rfl, hkind⟩
  exact h token hkind

/-! ## Lists between commas -/

/-- How a list goes on behind `element`: it ends at a token of kind `close`, and behind a
comma it goes on with what `more` reads. Every other token is refused. -/
def afterElement (close : Token.Kind) (expected : Expectation)
    (more : List Token → Outcome (List α)) (element : α) : List Token → Outcome (List α)
  | [] => ⟨.error expected, []⟩
  | token :: rest =>
    if token.kind = close then ⟨.ok [element], rest⟩
    else if token.kind = .comma then (more rest).map (element :: ·)
    else ⟨.error expected, token :: rest⟩

section

variable {close : Token.Kind} {token : Token} (expected : Expectation)
  (more : List Token → Outcome (List α)) (element : α) (rest : List Token)

theorem afterElement_of_close (h : token.kind = close) :
    afterElement close expected more element (token :: rest) = ⟨.ok [element], rest⟩ := by
  rw [afterElement, if_pos h]

theorem afterElement_of_comma (hclose : token.kind ≠ close) (hcomma : token.kind = .comma) :
    afterElement close expected more element (token :: rest) =
      (more rest).map (element :: ·) := by
  rw [afterElement, if_neg hclose, if_pos hcomma]

theorem afterElement_of_other (hclose : token.kind ≠ close) (hcomma : token.kind ≠ .comma) :
    afterElement close expected more element (token :: rest) =
      ⟨.error expected, token :: rest⟩ := by
  rw [afterElement, if_neg hclose, if_neg hcomma]

end

/-- Behind `element`, `afterElement` reads a language of lists if `more` reads what follows a
comma in it. -/
theorem Reads.afterElement {language : List Token → List α → Prop} {close : Token.Kind}
    {more : List Token → Outcome (List α)} {element : α} (expected : Expectation)
    (tokens : List Token)
    (hlast : ∀ closing, closing.kind = close → language [closing] [element])
    (hnext : ∀ comma rest, comma.kind = .comma → tokens = comma :: rest →
      Reads (fun phrase elements => language (comma :: phrase) (element :: elements)) more rest) :
    Reads language (Scriptlet.afterElement close expected more element) tokens := by
  -- Whatever was refused here, a closing token could have stood in its place.
  have hsome : ∃ phrase elements, language phrase elements :=
    ⟨_, _, hlast ⟨close, "", 0⟩ rfl⟩
  cases tokens with
  | nil => exact .refused_nil rfl hsome
  | cons token rest =>
    by_cases hend : token.kind = close
    · refine .cons ?_ fun list => afterElement_of_close expected more element list hend
      exact .of_head (.ok [element]) (fun _ _ => rfl) (hlast token hend)
    · by_cases hcomma : token.kind = .comma
      · refine .cons ?_ fun list => afterElement_of_comma expected more element list hend hcomma
        exact .map (hnext token rest hcomma rfl) fun _ _ h => h
      · exact .refused_cons
          (fun list => afterElement_of_other expected more element list hend hcomma) hsome

end Scriptlet
