import Scriptlet.Proofs.Syntax.ExpressionDerivation

/-!
# The reader of expressions takes all it can

On any tokens the reader of expressions takes the longest beginning of an expression and stops right
behind it, with the tree of what it took or with an error at the token that it left.

* `Ranked.exists_last`: the last operand of an expression can be replaced by any other of its rank.
* `begins_of_not_follows`: what does not follow an expression goes on with it.
* `not_begins_of_reads`: no expression begins with what was taken and the token that was left.
* `takesLongest_readExpression` is what one reading does, and `readInTurn_takes_longest` what
  readings in a row do.
-/

namespace Scriptlet

open Grammar

/-- `DerivesExpression` holds of `tokens` followed by some `more`. -/
def Grammar.BeginsExpression (tokens : List Token) : Prop :=
  ∃ more tree, DerivesExpression (tokens ++ more) tree

theorem Grammar.BeginsExpression.of_append {tokens more : List Token}
    (h : BeginsExpression (tokens ++ more)) : BeginsExpression tokens := by
  obtain ⟨more', tree, htree⟩ := h
  exact ⟨more ++ more', tree, by rwa [← List.append_assoc]⟩

/-! ## How expressions go on -/

/-- An expression of rank `rank` ends in an operand of each tighter rank `rank'`, and any
other operand `other` of rank `rank'` could stand in its place. -/
theorem Ranked.exists_last {rank rank' : Nat} (hle : rank' ≤ rank) {tokens : List Token}
    {tree : Expression} (h : Ranked rank tokens tree) :
    ∃ front last tree', tokens = front ++ last ∧ Ranked rank' last tree' ∧
      ∀ other otherTree, Ranked rank' other otherTree →
        ∃ whole, Ranked rank (front ++ other) whole := by
  induction hle generalizing tokens tree with
  | refl => exact ⟨[], tokens, tree, rfl, h, fun other otherTree hother => ⟨otherTree, hother⟩⟩
  | @step rank _ ih =>
    -- A chain ends in its only operand or in the one behind its last operator.
    cases h with
    | operand h =>
      obtain ⟨front, last, tree', rfl, hlast, hreplace⟩ := ih h
      refine ⟨front, last, tree', rfl, hlast, fun other otherTree hother => ?_⟩
      obtain ⟨whole, hwhole⟩ := hreplace other otherTree hother
      exact ⟨whole, .operand hwhole⟩
    | @operation _ before after token op left right hleft hop hright =>
      obtain ⟨front, last, tree', rfl, hlast, hreplace⟩ := ih hright
      refine ⟨before ++ token :: front, last, tree', by simp, hlast,
        fun other otherTree hother => ?_⟩
      obtain ⟨whole, hwhole⟩ := hreplace other otherTree hother
      rw [List.append_assoc, List.cons_append]
      exact ⟨_, .operation hleft hop hwhole⟩

/-- If `token` goes on with an expression of rank `rank` wherever one ends `tokens`, it goes
on with `tokens`. -/
theorem begins_of_last {rank : Nat} (hrank : rank ≤ 4) {tokens : List Token} {tree : Expression}
    (h : DerivesExpression tokens tree) {token : Token}
    (hlast : ∀ front last tree', tokens = front ++ last → Ranked rank last tree' →
      ∃ more whole, Ranked rank (last ++ token :: more) whole) :
    BeginsExpression (tokens ++ [token]) := by
  -- The longer operand takes the place of the last one.
  obtain ⟨front, last, tree', rfl, hoperand, hreplace⟩ := Ranked.exists_last hrank h
  obtain ⟨more, other, hother⟩ := hlast front last tree' rfl hoperand
  obtain ⟨whole, hwhole⟩ := hreplace _ other hother
  exact ⟨more, whole, by simpa [DerivesExpression, Ranked] using hwhole⟩

/-- Each `Operator` has its rank one above that of its tighter operand. -/
theorem Grammar.Operator.exists_tighter {rank : Nat} {kind : Token.Kind} {op : BinaryOp}
    (h : Operator rank kind op) : ∃ tighter < 4, rank = tighter + 1 := by
  cases h <;> exact ⟨_, by decide, rfl⟩

theorem begins_of_operator {tokens : List Token} {tree : Expression}
    (h : DerivesExpression tokens tree) {rank : Nat} {token : Token} {op : BinaryOp}
    (hop : Operator rank token.kind op) : BeginsExpression (tokens ++ [token]) := by
  obtain ⟨tighter, hlt, rfl⟩ := hop.exists_tighter
  refine begins_of_last (Nat.succ_le_of_lt hlt) h fun front last tree' _ hlast => ?_
  obtain ⟨operand, right, hright⟩ := exists_ranked tighter
  exact ⟨operand, _, .operation hlast hop hright⟩

theorem endsInName_concat (tokens : List Token) {token : Token} :
    EndsInName (tokens ++ [token]) ↔ ∃ name, token.kind = .identifier name := by
  simp [EndsInName]

theorem Ranked.eq_name {tokens : List Token} {tree : Expression} (h : Ranked 0 tokens tree)
    (hname : EndsInName tokens) :
    ∃ token name, tokens = [token] ∧ token.kind = .identifier name := by
  cases h with
  | @name token name hkind => exact ⟨token, name, rfl, hkind⟩
  -- All other expressions of rank zero end in a literal or in a closing token.
  | number hkind | string hkind =>
    obtain ⟨name, hname⟩ := (endsInName_concat []).mp hname
    rw [hkind] at hname
    cases hname
  | @call token opening closing _ inner _ _ _ _ hclosing =>
    obtain ⟨name, hname⟩ := (endsInName_concat (token :: opening :: inner)).mp hname
    rw [hclosing] at hname
    cases hname
  | @list opening closing inner _ _ _ hclosing | @group opening closing inner _ _ _ hclosing =>
    obtain ⟨name, hname⟩ := (endsInName_concat (opening :: inner)).mp hname
    rw [hclosing] at hname
    cases hname

theorem begins_of_endsInName {tokens : List Token} {tree : Expression}
    (h : DerivesExpression tokens tree) (hname : EndsInName tokens) {token : Token}
    (hkind : token.kind = .leftParen) : BeginsExpression (tokens ++ [token]) := by
  refine begins_of_last (Nat.zero_le 4) h fun front last tree' htokens hlast => ?_
  have hlastName : EndsInName last := by
    obtain ⟨first, others, rfl, -⟩ := hlast.starts
    simpa [EndsInName, htokens, List.getLast?_cons] using hname
  -- The name becomes a call without arguments.
  obtain ⟨callee, name, rfl, hcallee⟩ := hlast.eq_name hlastName
  exact ⟨[sample .rightParen], _, .call hcallee hkind .noItems rfl⟩

/-- The condition `Follows` of the grammar is not only sufficient: if `rest` does not follow
the expression `tokens`, then its first token goes on with it. -/
theorem begins_of_not_follows {tokens : List Token} {tree : Expression}
    (h : DerivesExpression tokens tree) {rest : List Token} (hrest : ¬ Follows 4 tokens rest) :
    ∃ token ∈ rest.head?, BeginsExpression (tokens ++ [token]) := by
  refine Classical.byContradiction fun hnone => hrest ?_
  refine fun token htoken => ⟨fun hkind hname => ?_, fun rank _ op hop => ?_⟩
  · exact hnone ⟨token, htoken, begins_of_endsInName h hname hkind⟩
  · exact hnone ⟨token, htoken, begins_of_operator h hop⟩

/-! ## One reading -/

/-- If `readExpression` takes `used` and stops in front of every `other` that starts like
`rest`, then no expression begins with `used` and the `token` it left: on the rest of such an
expression it would have gone on. -/
theorem not_begins_of_reads {used rest : List Token} {result : Except Expectation Expression}
    (hread : ∀ other, other.head? = rest.head? →
      (readExpression (used ++ other)).outcome = ⟨result, other⟩)
    {token : Token} (htoken : token ∈ rest.head?) : ¬ BeginsExpression (used ++ [token]) := by
  rintro ⟨more, tree, htree⟩
  -- With a semicolon behind it, the expression is read to its end, past the token that was left.
  rw [List.append_assoc, List.singleton_append] at htree
  have hends : EndsExpression (sample .semicolon).kind := trivial
  have hwhole := outcome_readExpression htree hends []
  have hstopped := hread (token :: (more ++ [sample .semicolon])) (Option.mem_def.mp htoken).symm
  rw [List.append_assoc, List.cons_append, hstopped, Outcome.mk.injEq] at hwhole
  simpa using congrArg List.length hwhole.2

/-- The first `taken` tokens are the longest beginning of an expression in front of `tokens`,
and `result` is the tree if they are an expression and otherwise an error at the token behind
them. -/
structure TakesLongest (tokens : List Token) (taken : Nat)
    (result : Except SyntaxError Expression) : Prop where
  /-- There are that many tokens. -/
  taken_le : taken ≤ tokens.length
  /-- An expression begins with them. -/
  begins : BeginsExpression (tokens.take taken)
  /-- No expression begins with more of the tokens. -/
  longest : ∀ length ≤ tokens.length, BeginsExpression (tokens.take length) → length ≤ taken
  /-- The result is a tree exactly if that is the expression taken. -/
  ok_iff : ∀ tree, result = .ok tree ↔ DerivesExpression (tokens.take taken) tree
  /-- If no expression was taken, the result names the token behind what was taken. -/
  error : (∀ tree, ¬ DerivesExpression (tokens.take taken) tree) → ∃ expected,
    result = .error (match tokens[taken]? with
      | some token => .unexpectedToken token.lexeme token.line expected
      | none => .unexpectedEnd expected)

theorem outcome_readExpression_of_longest {used rest : List Token} {tree : Expression}
    (h : DerivesExpression used tree)
    (hlongest : ∀ token ∈ rest.head?, ¬ BeginsExpression (used ++ [token])) :
    (readExpression (used ++ rest)).outcome = ⟨.ok tree, rest⟩ := by
  have hfollows : Follows 4 used rest := Classical.byContradiction fun hnot => by
    obtain ⟨token, htoken, hbegins⟩ := begins_of_not_follows h hnot
    exact hlongest token htoken hbegins
  exact (Grammar.DerivesTerm.isRead h).outcome hfollows

theorem le_of_begins_take {used rest : List Token}
    (hstop : ∀ token ∈ rest.head?, ¬ BeginsExpression (used ++ [token])) {length : Nat}
    (hlength : length ≤ (used ++ rest).length)
    (hbegins : BeginsExpression ((used ++ rest).take length)) : length ≤ used.length := by
  refine Nat.le_of_not_lt fun hlt => ?_
  obtain ⟨more, rfl⟩ := Nat.exists_eq_add_of_lt hlt
  -- A longer beginning would have the next token in it.
  cases rest with
  | nil =>
    rw [List.append_nil] at hlength
    omega
  | cons token others =>
    rw [Nat.add_assoc, List.take_length_add_append, List.take_succ_cons, List.append_cons]
      at hbegins
    exact hstop token rfl hbegins.of_append

theorem Fits.begins {used : List Token} {result : Except Expectation Expression}
    (h : Fits DerivesExpression used result) : BeginsExpression used := by
  cases result with
  | ok tree => exact ⟨[], tree, (List.append_nil used).symm ▸ h⟩
  | error expected => exact h

theorem mapError_eq_ok_iff {α ε ε' : Type} {result : Except ε α} {f : ε → ε'} {value : α} :
    result.mapError f = .ok value ↔ result = .ok value := by
  cases result with
  | ok found =>
    show (Except.ok found : Except ε' α) = .ok value ↔ _
    rw [Except.ok.injEq, Except.ok.injEq]
  | error _ => exact ⟨nofun, nofun⟩

/-- One call of `readExpression` takes the longest beginning of an expression and leaves what
is behind it. -/
theorem takesLongest_readExpression (tokens : List Token) :
    ∃ taken, TakesLongest tokens taken (readExpression tokens).result ∧
      (readExpression tokens).rest = tokens.drop taken := by
  obtain ⟨used, rest, result, rfl, hfits, hread⟩ := reads_expression tokens
  have hhere : (readExpression (used ++ rest)).outcome = ⟨result, rest⟩ := hread rest rfl
  have hstop : ∀ token ∈ rest.head?, ¬ BeginsExpression (used ++ [token]) :=
    fun token htoken => not_begins_of_reads hread htoken
  -- There is a tree exactly if the tokens taken are an expression, as the reader would have
  -- found it.
  have hok : ∀ tree, result = .ok tree ↔ DerivesExpression used tree := by
    refine fun tree => ⟨?_, fun htree => ?_⟩
    · rintro rfl
      exact hfits
    · rw [outcome_readExpression_of_longest htree hstop, Outcome.mk.injEq] at hhere
      exact hhere.1.symm
  have htake : (used ++ rest).take used.length = used := List.take_left
  rw [Reading.result_eq, Reading.rest_eq, hhere]
  have htakes : TakesLongest (used ++ rest) used.length (result.mapError (.expecting · rest)) := {
    taken_le := by simp
    begins := htake.symm ▸ Fits.begins hfits
    longest := fun length hlength hbegins => le_of_begins_take hstop hlength hbegins
    ok_iff := fun tree => by rw [htake, ← hok, mapError_eq_ok_iff]
    error := by
      intro hnone
      rw [htake] at hnone
      cases result with
      | ok tree => exact absurd ((hok tree).mp rfl) (hnone tree)
      | error expected =>
        refine ⟨expected, congrArg Except.error ?_⟩
        cases rest <;> simp [SyntaxError.expecting] }
  exact ⟨used.length, htakes, List.drop_left.symm⟩

/-! ## Readings in a row -/

/-- Calls `readExpression` `count` times, each time on what the call before it left, whatever
its result: the results and the tokens that are left. -/
def readInTurn : Nat → List Token → List (Except SyntaxError Expression) × List Token
  | 0, tokens => ([], tokens)
  | count + 1, tokens =>
    let reading := readExpression tokens
    let (results, rest) := readInTurn count reading.rest
    (reading.result :: results, rest)

/-- `Turns tokens position results stop` says that `results` are those of readings in a row
from `position` to `stop`, each of which `TakesLongest` and starts where the one before it
stopped. -/
inductive Turns (tokens : List Token) : Nat → List (Except SyntaxError Expression) → Nat → Prop
  | none (position : Nat) : Turns tokens position [] position
  | next {position taken stop : Nat} {result : Except SyntaxError Expression}
    {results : List (Except SyntaxError Expression)}
    (htakes : TakesLongest (tokens.drop position) taken result)
    (hrest : Turns tokens (position + taken) results stop) :
    Turns tokens position (result :: results) stop

/-- **The reader of expressions takes all it can, as often as it is called.** From every
`position`, each of the `count` calls of `readExpression` takes the longest beginning of an
expression and the next one starts right behind it: no token is left out and none is taken
twice, whatever the `results` are. -/
theorem readInTurn_takes_longest (tokens : List Token) (position count : Nat) :
    ∃ stop results, readInTurn count (tokens.drop position) = (results, tokens.drop stop) ∧
      results.length = count ∧ Turns tokens position results stop := by
  induction count generalizing position with
  | zero => exact ⟨position, [], rfl, rfl, .none position⟩
  | succ count ih =>
    obtain ⟨taken, htakes, hrest⟩ := takesLongest_readExpression (tokens.drop position)
    obtain ⟨stop, results, hread, hlength, hturns⟩ := ih (position + taken)
    refine ⟨stop, _ :: results, ?_, congrArg Nat.succ hlength, .next htakes hturns⟩
    rw [readInTurn, hrest, List.drop_drop, hread]

end Scriptlet
