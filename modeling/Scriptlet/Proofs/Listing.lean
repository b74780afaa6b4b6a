import Scriptlet.Command
import Scriptlet.Proofs.OutputLines
import Scriptlet.Proofs.Syntax.Form

/-!
# Listings

The command shows a program as a listing, one line for each statement. A listing is a bracketed text
from which the program can be told but for its lines: operators and the heads of statements and
calls are words that stand at places of their own, and no literal looks like a name.

* `Expression.form` and `Statement.form` are the forms of printed trees.
* `Expression.toList_printed` and `Statement.toList_printed`: printed trees are the texts of their
  forms.
* `Expression.mapLines_eq_of_form_eq` and `Statement.mapLines_eq_of_form_eq`: trees with the same
  form differ in their lines only.
* `Program.listing` is the listing, and `showStatements_of_readSource` says that it is what is
  shown.
* `sameShape_iff_written_showStatements_eq` is the result.
-/

namespace Scriptlet

open Lexicon

/-! ## Forms of trees -/

mutual

/-- The form of an expression: what `Expression.printed` writes, as a bracketed text with
places. -/
def Expression.form : Expression → Form
  | .literal value => .word (toString value)
  | .string text => .quoted text
  | .identifier name _ => .word name
  | .binary op left right _ => .enclosed .round [.word op.symbol, left.form, right.form]
  | .list items => .enclosed .square (formAll items)
  | .call name arguments _ => .enclosed .round (.word "call" :: .word name :: formAll arguments)

/-- The forms of some expressions, each as `Expression.form`. -/
def Expression.formAll : List Expression → List Form
  | [] => []
  | e :: es => e.form :: formAll es

end

mutual

/-- The form of a statement. That of `evaluate` is the form of its expression. -/
def Statement.form : Statement → Form
  | .assign name value _ => .enclosed .round [.word "assign", .word name, value.form]
  | .write value _ => .enclosed .round [.word "write", value.form]
  | .read name _ => .enclosed .round [.word "read", .word name]
  | .random name bound _ => .enclosed .round [.word "random", .word name, bound.form]
  | .define name parameters body _ =>
    .enclosed .round (.word "function" :: .word name ::
      .enclosed .round (parameters.map .word) :: formAll body)
  | .evaluate value _ => value.form

/-- The forms of some statements, each as `Statement.form`. -/
def Statement.formAll : List Statement → List Form
  | [] => []
  | s :: ss => s.form :: formAll ss

end

/-! ## Printed trees -/

/-- Texts with the separator of `bracket` between them are the inside of such brackets, when
they are the texts of `forms`. -/
theorem Form.toList_intercalate {bracket : Bracket} {separator : String}
    (hseparator : separator.toList = bracket.separator) {texts : List String} {forms : List Form}
    (h : texts.map String.toList = forms.map Form.text) :
    (String.intercalate separator texts).toList = inside bracket forms := by
  -- The separator stands between two texts, so a single text is a case of its own.
  induction forms generalizing texts with
  | nil =>
    rw [List.map_eq_nil_iff.mp h, String.intercalate_nil]
    rfl
  | cons form forms ih =>
    obtain ⟨text, texts, rfl, hform, hforms⟩ := List.map_eq_cons_iff.mp h
    rcases forms with _ | ⟨next, forms⟩
    · rw [List.map_eq_nil_iff.mp hforms, String.intercalate_singleton, hform, inside, behind,
        List.append_nil]
    · obtain ⟨text', texts, rfl, -, -⟩ := List.map_eq_cons_iff.mp hforms
      rw [String.intercalate_cons_cons, String.toList_append, String.toList_append, ih hforms,
        hseparator, hform, List.append_assoc]
      rfl

theorem Form.toList_round {texts : List String} {forms : List Form}
    (h : texts.map String.toList = forms.map text) :
    ("(" ++ String.intercalate " " texts ++ ")").toList = (enclosed .round forms).text := by
  have hseparator : " ".toList = Bracket.round.separator := rfl
  rw [String.toList_append, String.toList_append, toList_intercalate hseparator h]
  rfl

theorem Form.toList_square {texts : List String} {forms : List Form}
    (h : texts.map String.toList = forms.map text) :
    ("[" ++ String.intercalate ", " texts ++ "]").toList = (enclosed .square forms).text := by
  have hseparator : ", ".toList = Bracket.square.separator := rfl
  rw [String.toList_append, String.toList_append, toList_intercalate hseparator h]
  rfl

mutual

/-- A printed expression is the text of its `form`. -/
theorem Expression.toList_printed : ∀ e : Expression, e.printed.toList = e.form.text
  | .literal value => rfl
  | .string text => by
    rw [printed, String.toList_append, String.toList_append]
    rfl
  | .identifier name _ => rfl
  | .binary op left right _ => by
    have hparts : [op.symbol, left.printed, right.printed].map String.toList =
        [.word op.symbol, left.form, right.form].map Form.text := by
      rw [List.map_cons, List.map_cons, List.map_cons, Expression.toList_printed left,
        Expression.toList_printed right]
      rfl
    rw [form, ← Form.toList_round hparts, printed]
    simp only [String.intercalate_cons_cons, String.intercalate_singleton, String.append_assoc]
  | .list items => Form.toList_square (Expression.toList_printedAll items)
  | .call name arguments _ => by
    have hparts : (["call", name] ++ printedAll arguments).map String.toList =
        (.word "call" :: .word name :: formAll arguments).map Form.text := by
      rw [List.map_append, Expression.toList_printedAll arguments]
      rfl
    exact Form.toList_round hparts

theorem Expression.toList_printedAll : ∀ es : List Expression,
    (printedAll es).map String.toList = (formAll es).map Form.text
  | [] => rfl
  | e :: es => by
    rw [printedAll, formAll, List.map_cons, List.map_cons, Expression.toList_printed e,
      Expression.toList_printedAll es]

end

/-- A printed statement other than `define` is the text of its `form`. -/
theorem Statement.toList_printed_of_ne_define {tree : Statement}
    (h : ∀ name parameters body line, tree ≠ .define name parameters body line) :
    tree.printed.toList = tree.form.text := by
  rcases tree with ⟨name, e, line⟩ | ⟨e, line⟩ | ⟨name, line⟩ | ⟨name, e, line⟩ |
    ⟨name, parameters, body, line⟩ | ⟨e, line⟩
  case define => exact absurd rfl (h name parameters body line)
  case evaluate => exact e.toList_printed
  all_goals
    simp [printed, form, Expression.toList_printed, Form.text, Form.inside, Form.behind,
      Bracket.opening, Bracket.closing, Bracket.separator]

mutual

/-- A printed statement is the text of its `form`. -/
theorem Statement.toList_printed : ∀ s : Statement, s.printed.toList = s.form.text
  | .assign _ _ _ => toList_printed_of_ne_define nofun
  | .write _ _ => toList_printed_of_ne_define nofun
  | .read _ _ => toList_printed_of_ne_define nofun
  | .random _ _ _ => toList_printed_of_ne_define nofun
  | .define name parameters body _ => by
    have hnames : parameters.map String.toList = (parameters.map Form.word).map Form.text := by
      rw [List.map_map]
      rfl
    have hparts : (["function", name, "(" ++ String.intercalate " " parameters ++ ")"] ++
        printedAll body).map String.toList =
        (.word "function" :: .word name :: .enclosed .round (parameters.map .word) ::
          formAll body).map Form.text := by
      rw [List.map_append, Statement.toList_printedAll body, List.map_cons, List.map_cons,
        List.map_singleton, Form.toList_round hnames]
      rfl
    exact Form.toList_round hparts
  | .evaluate _ _ => toList_printed_of_ne_define nofun

theorem Statement.toList_printedAll : ∀ ss : List Statement,
    (printedAll ss).map String.toList = (formAll ss).map Form.text
  | [] => rfl
  | s :: ss => by
    rw [printedAll, formAll, List.map_cons, List.map_cons, Statement.toList_printed s,
      Statement.toList_printedAll ss]

end

/-! ## Proper forms -/

theorem Form.isPlain_of_wordStart_or_digit {c : Char} (h : WordStart c ∨ Digit c) : IsPlain c := by
  intro hdelimiter
  simp only [List.mem_cons, List.not_mem_nil, or_false] at hdelimiter
  rcases hdelimiter with rfl | rfl | rfl | rfl | rfl | rfl | rfl | rfl <;>
    exact absurd h (by unfold WordStart Digit; decide)

/-- The text of a name begins with a letter or an underscore, and all its characters are
`IsPlain`, that is, it holds no delimiters. -/
theorem Lexicon.Word.exists_eq_cons {word : List Char} (h : Word word) :
    ∃ c rest, word = c :: rest ∧ WordStart c ∧ ∀ d ∈ word, Form.IsPlain d := by
  have hplain {c : Char} {word : List Char} (hstart : WordStart c)
      (hword : ∀ d ∈ word, WordStart d ∨ Digit d) : ∀ d ∈ c :: word, Form.IsPlain d := by
    rw [List.forall_mem_cons]
    exact ⟨Form.isPlain_of_wordStart_or_digit (.inl hstart),
      fun d hd => Form.isPlain_of_wordStart_or_digit (hword d hd)⟩
  rcases h with ⟨hstart, hword⟩ | ⟨hstart, hword, hmark⟩
  · exact ⟨_, _, rfl, hstart, hplain hstart hword⟩
  · refine ⟨_, _, rfl, hstart, ?_⟩
    rw [← List.cons_append, List.forall_mem_append, List.forall_mem_singleton]
    refine ⟨hplain hstart hword, ?_⟩
    rcases hmark with rfl | rfl <;> decide

theorem Form.proper_word_of_isName {name : String} (h : IsName name) : (word name).Proper := by
  obtain ⟨c, rest, hword, -, hplain⟩ := h.1.exists_eq_cons
  exact ⟨by rw [hword]; exact List.cons_ne_nil _ _, hplain⟩

theorem Integer.exists_toList_toString_eq {value : Int} (h : 0 ≤ value) :
    ∃ n : Nat, value = n ∧ (toString value).toList = Nat.toDigits 10 n := by
  obtain ⟨n, rfl⟩ := Int.eq_ofNat_of_zero_le h
  exact ⟨n, rfl, Nat.toList_repr⟩

/-- A literal that is not negative is a word. Only such literals are written in source texts. -/
theorem Form.proper_word_toString {value : Int} (h : 0 ≤ value) :
    (word (toString value)).Proper := by
  obtain ⟨n, -, hdigits⟩ := Integer.exists_toList_toString_eq h
  rw [Form.Proper, hdigits]
  exact ⟨Nat.toDigits_ne_nil, fun c hc =>
    isPlain_of_wordStart_or_digit (.inr (digit_of_mem_toDigits hc))⟩

/-- The words that statements begin with when they are printed. -/
def statementHeads : List String :=
  ["assign", "write", "read", "random", "function"]

/-- The words that statements and calls begin with when they are printed. -/
def heads : List String :=
  "call" :: statementHeads

theorem Form.proper_word_of_mem_heads {head : String} (h : head ∈ heads) : (word head).Proper := by
  have hheads : ∀ head ∈ heads, (word head).Proper := by
    simp [heads, statementHeads, Form.Proper, IsPlain]
  exact hheads head h

theorem Form.proper_word_symbol (op : BinaryOp) : (word op.symbol).Proper := by
  cases op <;> simp [Form.Proper, IsPlain, BinaryOp.symbol]

/-- No operator looks like one of the `heads`. This is what keeps operations and calls apart. -/
theorem BinaryOp.symbol_not_mem_heads (op : BinaryOp) : op.symbol ∉ heads := by
  cases op <;> decide

mutual

/-- The form of a `Writable` expression is `Proper`: its words and quoted texts can be found
again. -/
theorem Expression.Writable.proper : ∀ {e : Expression}, e.Writable → e.form.Proper
  | .literal _, h => Form.proper_word_toString h.1
  | .string _, h => h
  | .identifier _ _, h => Form.proper_word_of_isName h
  | .binary op _ _ _, h => ⟨Form.proper_word_symbol op, h.1.proper, h.2.proper, trivial⟩
  | .list _, h => Expression.allProper_of_allWritable h
  | .call _ _ _, h =>
    ⟨Form.proper_word_of_mem_heads (by decide), Form.proper_word_of_isName h.1,
      Expression.allProper_of_allWritable h.2⟩

theorem Expression.allProper_of_allWritable : ∀ {es : List Expression}, allWritable es →
    Form.allProper (formAll es)
  | [], _ => trivial
  | _ :: _, h => ⟨h.1.proper, Expression.allProper_of_allWritable h.2⟩

end

/-- The names that a statement introduces. -/
def Statement.names : Statement → List String
  | .assign name _ _ => [name]
  | .write _ _ => []
  | .read name _ => [name]
  | .random name _ _ => [name]
  | .define name parameters _ _ => name :: parameters
  | .evaluate _ _ => []

/-- The `names` of a statement in a source text satisfy `IsName`. -/
theorem Statement.Written.isName {tree : Statement} (h : tree.Written) :
    ∀ name ∈ tree.names, IsName name := by
  rcases h with h | ⟨value, line, rfl, -⟩
  · rcases tree with ⟨name, e, line⟩ | ⟨e, line⟩ | ⟨name, line⟩ | ⟨name, e, line⟩ |
      ⟨name, parameters, body, line⟩ | ⟨e, line⟩
    · exact List.forall_mem_singleton.mpr h.1
    · exact List.forall_mem_nil _
    · exact List.forall_mem_singleton.mpr h
    · exact List.forall_mem_singleton.mpr h.1
    · exact List.forall_mem_cons.mpr ⟨h.1, h.2.1⟩
    · exact List.forall_mem_nil _
  · exact List.forall_mem_nil _

theorem Form.allProper_map_word {names : List String} (h : ∀ name ∈ names, IsName name) :
    allProper (names.map word) := by
  induction names with
  | nil => trivial
  | cons name names ih =>
    rw [List.forall_mem_cons] at h
    exact ⟨proper_word_of_isName h.1, ih h.2⟩

mutual

/-- The form of a statement in a source text is `Proper`. -/
theorem Statement.Written.proper : ∀ {s : Statement}, s.Written → s.form.Proper
  | .assign _ _ _, h =>
    ⟨Form.proper_word_of_mem_heads (by decide),
      Form.proper_word_of_isName (h.isName _ List.mem_cons_self), (h.operand rfl).proper, trivial⟩
  | .write _ _, h => ⟨Form.proper_word_of_mem_heads (by decide), (h.operand rfl).proper, trivial⟩
  | .read _ _, h =>
    ⟨Form.proper_word_of_mem_heads (by decide),
      Form.proper_word_of_isName (h.isName _ List.mem_cons_self), trivial⟩
  | .random _ _ _, h =>
    ⟨Form.proper_word_of_mem_heads (by decide),
      Form.proper_word_of_isName (h.isName _ List.mem_cons_self), (h.operand rfl).proper, trivial⟩
  | .define _ _ _ _, h =>
    have hnames := List.forall_mem_cons.mp h.isName
    ⟨Form.proper_word_of_mem_heads (by decide), Form.proper_word_of_isName hnames.1,
      Form.allProper_map_word hnames.2, Statement.allProper_of_written fun _ hpart => h.body hpart⟩
  | .evaluate _ _, h => (h.operand rfl).proper

theorem Statement.allProper_of_written : ∀ {ss : List Statement}, (∀ s ∈ ss, s.Written) →
    Form.allProper (formAll ss)
  | [], _ => trivial
  | _ :: _, h =>
    have hparts := List.forall_mem_cons.mp h
    ⟨hparts.1.proper, Statement.allProper_of_written hparts.2⟩

end

/-! ## Trees with the same form -/

/-- Expressions that have the same constructor and data, and whose parts have the same forms.
What `alike_of_form_eq` finds before the recursion goes into the parts. -/
inductive Expression.Alike : Expression → Expression → Prop where
  | literal (value : Int) : Alike (.literal value) (.literal value)
  | string (text : String) : Alike (.string text) (.string text)
  | identifier (name : String) (line line' : Nat) :
      Alike (.identifier name line) (.identifier name line')
  | binary (op : BinaryOp) {left left' right right' : Expression} (line line' : Nat)
      (hleft : left.form = left'.form) (hright : right.form = right'.form) :
      Alike (.binary op left right line) (.binary op left' right' line')
  | list {items items' : List Expression} (h : formAll items = formAll items') :
      Alike (.list items) (.list items')
  | call (name : String) {arguments arguments' : List Expression} (line line' : Nat)
      (h : formAll arguments = formAll arguments') :
      Alike (.call name arguments line) (.call name arguments' line')

/-- No literal looks like a name: it begins with a digit. -/
theorem Integer.toString_ne_of_isName {value : Int} (hvalue : 0 ≤ value) {name : String}
    (hname : IsName name) : toString value ≠ name := by
  rintro rfl
  obtain ⟨c, rest, hword, hstart, -⟩ := hname.1.exists_eq_cons
  obtain ⟨n, -, hdigits⟩ := exists_toList_toString_eq hvalue
  have hdigit : Digit c := digit_of_mem_toDigits (hdigits ▸ hword ▸ List.mem_cons_self)
  have hletter := toNat_of_isWordStart (isWordStart_iff.mpr hstart)
  have hrange := toNat_of_isDigit (isDigit_iff.mpr hdigit)
  omega

theorem Integer.eq_of_toString_eq {value value' : Int} (h : 0 ≤ value) (h' : 0 ≤ value')
    (heq : toString value = toString value') : value = value' := by
  obtain ⟨n, rfl, hdigits⟩ := exists_toList_toString_eq h
  obtain ⟨n', rfl, hdigits'⟩ := exists_toList_toString_eq h'
  rw [heq, hdigits'] at hdigits
  rw [← ofDigits_toDigits n, ← hdigits, ofDigits_toDigits]

theorem BinaryOp.eq_of_symbol_eq {op op' : BinaryOp} (h : op.symbol = op'.symbol) : op = op' := by
  revert h
  cases op <;> cases op' <;> decide

/-- Two `Writable` expressions with the same form are `Alike`. -/
theorem Expression.alike_of_form_eq {e e' : Expression} (h : e.Writable) (h' : e'.Writable)
    (heq : e.form = e'.form) : Alike e e' := by
  -- Most pairs of constructors have different forms; what is left are equal constructors and
  -- those whose words could be mistaken for one another.
  rcases e with value | text | ⟨name, line⟩ | ⟨op, left, right, line⟩ | items |
      ⟨name, arguments, line⟩ <;>
    rcases e' with value' | text' | ⟨name', line'⟩ | ⟨op', left', right', line'⟩ | items' |
      ⟨name', arguments', line'⟩ <;>
    simp only [form, reduceCtorEq, Form.word.injEq, Form.quoted.injEq, Form.enclosed.injEq,
      List.cons.injEq, true_and, false_and, and_true] at heq
  case literal.literal =>
    rw [Integer.eq_of_toString_eq h.1 h'.1 heq]
    exact .literal _
  case literal.identifier => exact absurd heq (Integer.toString_ne_of_isName h.1 h')
  case identifier.literal => exact absurd heq.symm (Integer.toString_ne_of_isName h'.1 h)
  case string.string =>
    rw [heq]
    exact .string _
  case identifier.identifier =>
    rw [heq]
    exact .identifier _ _ _
  case binary.binary =>
    rw [BinaryOp.eq_of_symbol_eq heq.1]
    exact .binary _ _ _ heq.2.1 heq.2.2
  -- The head of a call is a word, and that of an operation is the symbol of its operator.
  case binary.call => exact absurd List.mem_cons_self (heq.1 ▸ op.symbol_not_mem_heads)
  case call.binary => exact absurd List.mem_cons_self (heq.1 ▸ op'.symbol_not_mem_heads)
  case list.list => exact .list heq
  case call.call =>
    rw [heq.1]
    exact .call _ _ _ heq.2

mutual

/-- Two `Writable` expressions with the same form differ in their lines only. -/
theorem Expression.mapLines_eq_of_form_eq : ∀ {e e' : Expression}, e.Writable → e'.Writable →
    e.form = e'.form → e.mapLines (fun _ => 0) = e'.mapLines (fun _ => 0)
  | e, e', h, h', heq => by
    rcases alike_of_form_eq h h' heq with _ | _ | _ | ⟨op, _, _, hleft, hright⟩ | hitems |
      ⟨name, _, _, harguments⟩
    · rfl
    · rfl
    · rfl
    · rw [mapLines, mapLines, Expression.mapLines_eq_of_form_eq h.1 h'.1 hleft,
        Expression.mapLines_eq_of_form_eq h.2 h'.2 hright]
    · rw [mapLines, mapLines, Expression.mapLinesAll_eq_of_formAll_eq h h' hitems]
    · rw [mapLines, mapLines, Expression.mapLinesAll_eq_of_formAll_eq h.2 h'.2 harguments]

theorem Expression.mapLinesAll_eq_of_formAll_eq : ∀ {es es' : List Expression},
    allWritable es → allWritable es' → formAll es = formAll es' →
    mapLinesAll (fun _ => 0) es = mapLinesAll (fun _ => 0) es'
  | [], [], _, _, _ => rfl
  | e :: es, e' :: es', h, h', heq => by
    obtain ⟨hfirst, hrest⟩ := List.cons.inj heq
    rw [mapLinesAll, mapLinesAll, Expression.mapLines_eq_of_form_eq h.1 h'.1 hfirst,
      Expression.mapLinesAll_eq_of_formAll_eq h.2 h'.2 hrest]

end

/-- Statements that have the same constructor and data, and whose parts have the same forms. -/
inductive Statement.Alike : Statement → Statement → Prop where
  | assign (name : String) {value value' : Expression} (line line' : Nat)
      (h : value.form = value'.form) : Alike (.assign name value line) (.assign name value' line')
  | write {value value' : Expression} (line line' : Nat) (h : value.form = value'.form) :
      Alike (.write value line) (.write value' line')
  | read (name : String) (line line' : Nat) : Alike (.read name line) (.read name line')
  | random (name : String) {bound bound' : Expression} (line line' : Nat)
      (h : bound.form = bound'.form) : Alike (.random name bound line) (.random name bound' line')
  | define (name : String) (parameters : List String) {body body' : Program} (line line' : Nat)
      (h : formAll body = formAll body') :
      Alike (.define name parameters body line) (.define name parameters body' line')
  | evaluate {value value' : Expression} (line line' : Nat) (h : value.form = value'.form) :
      Alike (.evaluate value line) (.evaluate value' line')

/-- No expression begins like a statement: its head is an operator, or the word `call`. -/
theorem Expression.form_ne_of_mem_statementHeads {head : String} (h : head ∈ statementHeads)
    (e : Expression) (parts : List Form) : e.form ≠ .enclosed .round (.word head :: parts) := by
  intro heq
  rcases e with value | text | ⟨name, line⟩ | ⟨op, left, right, line⟩ | items |
      ⟨name, arguments, line⟩ <;>
    simp only [form, reduceCtorEq, Form.word.injEq, Form.enclosed.injEq, List.cons.injEq, true_and,
      false_and] at heq
  · have hheads : head ∈ heads := List.mem_cons_of_mem _ h
    exact op.symbol_not_mem_heads (heq.1 ▸ hheads)
  · rw [← heq.1] at h
    exact absurd h (by decide)

/-- Parts between round brackets are equal if they have the same head and go on alike. -/
theorem Form.headed_inj {head head' : String} {parts parts' : List Form}
    (h : enclosed .round (.word head :: parts) = enclosed .round (.word head' :: parts')) :
    head = head' ∧ parts = parts' := by
  rw [enclosed.injEq, List.cons.injEq, word.injEq] at h
  exact h.2

/-- Statements with the same form are `Alike`. -/
theorem Statement.alike_of_form_eq {s s' : Statement} (heq : s.form = s'.form) : Alike s s' := by
  rcases s with ⟨name, e, line⟩ | ⟨e, line⟩ | ⟨name, line⟩ | ⟨name, e, line⟩ |
      ⟨name, parameters, body, line⟩ | ⟨e, line⟩ <;>
    rcases s' with ⟨name', e', line'⟩ | ⟨e', line'⟩ | ⟨name', line'⟩ | ⟨name', e', line'⟩ |
      ⟨name', parameters', body', line'⟩ | ⟨e', line'⟩
  case evaluate.evaluate => exact .evaluate _ _ heq
  case evaluate.assign | evaluate.write | evaluate.read | evaluate.random | evaluate.define =>
    exact absurd heq (e.form_ne_of_mem_statementHeads (by decide) _)
  case assign.evaluate | write.evaluate | read.evaluate | random.evaluate | define.evaluate =>
    exact absurd heq.symm (e'.form_ne_of_mem_statementHeads (by decide) _)
  -- All other statements begin with a head of their own, which settles the constructor.
  all_goals obtain ⟨hhead, hparts⟩ := Form.headed_inj heq
  case assign.assign =>
    simp only [List.cons.injEq, Form.word.injEq, and_true] at hparts
    rw [hparts.1]
    exact .assign _ _ _ hparts.2
  case write.write => exact .write _ _ (List.cons.inj hparts).1
  case read.read =>
    simp only [List.cons.injEq, Form.word.injEq, and_true] at hparts
    rw [hparts]
    exact .read _ _ _
  case random.random =>
    simp only [List.cons.injEq, Form.word.injEq, and_true] at hparts
    rw [hparts.1]
    exact .random _ _ _ hparts.2
  case define.define =>
    simp only [List.cons.injEq, Form.word.injEq, Form.enclosed.injEq, true_and] at hparts
    obtain ⟨rfl, hparameters, hbody⟩ := hparts
    have hinjective : Function.Injective Form.word := fun _ _ => Form.word.inj
    rw [List.map_injective_iff.mpr hinjective hparameters]
    exact .define _ _ _ _ hbody
  all_goals exact absurd hhead (by decide)

mutual

/-- Statements that are `Written` and have the same form differ in their lines only. -/
theorem Statement.mapLines_eq_of_form_eq : ∀ {s s' : Statement}, s.Written → s'.Written →
    s.form = s'.form → s.mapLines (fun _ => 0) = s'.mapLines (fun _ => 0)
  | s, s', h, h', heq => by
    rcases Statement.alike_of_form_eq heq with ⟨_, _, _, hvalue⟩ | ⟨_, _, hvalue⟩ | _ |
      ⟨_, _, _, hvalue⟩ | @⟨_, _, body, body', _, _, hbody⟩ | ⟨_, _, hvalue⟩
    case read => rfl
    -- A body is compared statement by statement; every other statement has one expression at
    -- most.
    case define =>
      have hlines : Program.SameShape body body' := Program.mapLines_eq_of_formAll_eq
        (fun _ hpart => h.body hpart) (fun _ hpart => h'.body hpart) hbody
      rw [Statement.mapLines, Statement.mapLines, hlines]
    all_goals
      rw [Statement.mapLines, Statement.mapLines,
        Expression.mapLines_eq_of_form_eq (h.operand rfl) (h'.operand rfl) hvalue]

/-- Lists of statements that are `Written` and have the same forms are programs of the
`SameShape`. -/
theorem Program.mapLines_eq_of_formAll_eq : ∀ {ss ss' : Program}, (∀ s ∈ ss, s.Written) →
    (∀ s ∈ ss', s.Written) → Statement.formAll ss = Statement.formAll ss' →
    ss.SameShape ss'
  | [], [], _, _, _ => rfl
  | s :: ss, s' :: ss', h, h', heq => by
    rw [List.forall_mem_cons] at h h'
    obtain ⟨hfirst, hrest⟩ := List.cons.inj heq
    rw [Program.SameShape, Program.mapLines, Program.mapLines,
      Statement.mapLines_eq_of_form_eq h.1 h'.1 hfirst,
      Program.mapLines_eq_of_formAll_eq h.2 h'.2 hrest]

end

mutual

/-- The form of an expression does not show its lines. -/
theorem Expression.form_mapLines (f : Nat → Nat) : ∀ e : Expression, (e.mapLines f).form = e.form
  | .literal _ => rfl
  | .string _ => rfl
  | .identifier _ _ => rfl
  | .binary op left right _ => by
    rw [mapLines, form, form, Expression.form_mapLines f left, Expression.form_mapLines f right]
  | .list items => by rw [mapLines, form, form, Expression.formAll_mapLinesAll f items]
  | .call _ arguments _ => by rw [mapLines, form, form, Expression.formAll_mapLinesAll f arguments]

theorem Expression.formAll_mapLinesAll (f : Nat → Nat) : ∀ es : List Expression,
    formAll (mapLinesAll f es) = formAll es
  | [] => rfl
  | e :: es => by
    rw [mapLinesAll, formAll, formAll, Expression.form_mapLines f e,
      Expression.formAll_mapLinesAll f es]

end

mutual

/-- The form of a statement does not show its lines. -/
theorem Statement.form_mapLines (f : Nat → Nat) : ∀ s : Statement, (s.mapLines f).form = s.form
  | .assign _ _ _ => by rw [mapLines, form, form, Expression.form_mapLines]
  | .write _ _ => by rw [mapLines, form, form, Expression.form_mapLines]
  | .read _ _ => rfl
  | .random _ _ _ => by rw [mapLines, form, form, Expression.form_mapLines]
  | .define _ _ body _ => by rw [mapLines, form, form, Statement.formAll_mapLines f body]
  | .evaluate _ _ => by rw [mapLines, form, form, Expression.form_mapLines]

theorem Statement.formAll_mapLines (f : Nat → Nat) : ∀ ss : Program,
    formAll (ss.mapLines f) = formAll ss
  | [] => rfl
  | s :: ss => by
    rw [Program.mapLines, formAll, formAll, Statement.form_mapLines f s,
      Statement.formAll_mapLines f ss]

end

/-! ## Listings -/

/-- The statements of `program` as `Statement.printed`, each on a line of its own. -/
def Program.listing (program : Program) : String :=
  String.join (program.map fun statement => statement.printed ++ "\n")

/-- The listing of `program` consists of the texts of the forms, each with a newline behind
it. -/
theorem Program.toList_listing (program : Program) :
    program.listing.toList =
      (Statement.formAll program).flatMap fun form => form.text ++ ['\n'] := by
  unfold listing
  rw [String.toList_join]
  induction program with
  | nil => rfl
  | cons statement program ih =>
    rw [List.map_cons, List.flatMap_cons, ih, Statement.formAll, List.flatMap_cons,
      String.toList_append, statement.toList_printed]
    rfl

/-- Programs of `Written` statements with the same `listing` differ in their lines only. A
proper form is found again in front of the newline, so the listing is taken apart from left to
right. -/
theorem Program.listing_eq_iff {program program' : Program} (h : ∀ tree ∈ program, tree.Written)
    (h' : ∀ tree ∈ program', tree.Written) :
    program.listing = program'.listing ↔ program.SameShape program' := by
  constructor
  · intro heq
    refine mapLines_eq_of_formAll_eq h h' (Form.lines_inj (Statement.allProper_of_written h)
      (Statement.allProper_of_written h') ?_)
    rw [← toList_listing, ← toList_listing, heq]
  · intro heq
    apply String.toList_inj.mp
    rw [toList_listing, toList_listing, ← Statement.formAll_mapLines (fun _ => 0) program, heq,
      Statement.formAll_mapLines]

/-- What `showStatements` gives to an output without end is the `listing` of the program. -/
theorem showStatements_of_readSource {source : String} {program : Program}
    (h : readSource source = .ok program) {output : Sink} (hroom : output.room = none) :
    showStatements output source = .ofDiagnostics 0 (output.append program.listing) [] := by
  unfold showStatements
  rw [h]
  refine congrArg (Report.ofDiagnostics 0 · []) ?_
  clear h
  induction program generalizing output with
  | nil => exact output.append_empty.symm
  | cons statement program ih =>
    rw [List.foldl_cons, Sink.writeLine_of_room_eq_none hroom]
    refine (@ih (output.append (statement.printed ++ "\n")) hroom).trans ?_
    rw [Sink.append_append, Program.listing, Program.listing, List.map_cons, String.join_cons]

/-- Two texts are the same if they are the same behind what `sink` was given. -/
theorem Sink.written_append_inj {sink : Sink} {text text' : String}
    (h : (sink.append text).written = (sink.append text').written) : text = text' := by
  have hbytes : sink.written ++ text.toUTF8 = sink.written ++ text'.toUTF8 := h
  exact String.toByteArray_inj.mp ((ByteArray.append_right_inj _).mp hbytes)

/-- **What is shown of a program determines it.** For any two source texts that `readSource`
accepts, however long and deeply nested, what `showStatements` writes to an output with
`room = none` is equal as a whole text exactly if the programs have the `SameShape`: they have
the same statements in the same order, with the same operators, nesting, names, parameters,
bodies, literals and strings. Either output is the `listing` of its program, one line for each
statement. -/
theorem sameShape_iff_written_showStatements_eq {source source' : String}
    {program program' : Program} (h : readSource source = .ok program)
    (h' : readSource source' = .ok program') {output : Sink} (hroom : output.room = none) :
    (showStatements output source).output = output.append program.listing ∧
      (showStatements output source').output = output.append program'.listing ∧
      ((showStatements output source).output.written =
          (showStatements output source').output.written ↔
        program.SameShape program') := by
  rw [← Program.listing_eq_iff (written_of_readSource h) (written_of_readSource h'),
    showStatements_of_readSource h hroom, showStatements_of_readSource h' hroom]
  exact ⟨rfl, rfl, Sink.written_append_inj, fun heq => by rw [heq]⟩

/-- A program whose names are words that listings begin with. -/
def Program.disguised (line : Nat) : Program :=
  [.assign "call" (.call "assign" [.string "a, b"] line) 1]

/-- A line break in front of the call is not shown, but two strings are not shown like one
with a comma and a blank in it. In `Program.disguised` the names are those of `heads`. -/
theorem disguised_is_shown_apart :
    readSource "call = assign(\"a, b\");" = .ok (.disguised 1) ∧
      readSource "call =\nassign(\"a, b\");" = .ok (.disguised 2) ∧
      (showStatements .unlimited "call = assign(\"a, b\");").output.written =
        (showStatements .unlimited "call =\nassign(\"a, b\");").output.written ∧
      (showStatements .unlimited "call = assign(\"a, b\");").output.written ≠
        (showStatements .unlimited "call = assign(\"a\", \"b\");").output.written := by
  have hread : readSource "call = assign(\"a, b\");" = .ok (.disguised 1) := by cbv
  have hspread : readSource "call =\nassign(\"a, b\");" = .ok (.disguised 2) := by cbv
  have hsplit : readSource "call = assign(\"a\", \"b\");" =
      .ok [.assign "call" (.call "assign" [.string "a", .string "b"] 1) 1] := by cbv
  obtain ⟨-, -, hspreadShape⟩ := sameShape_iff_written_showStatements_eq hread hspread
    (show Sink.unlimited.room = none from rfl)
  obtain ⟨-, -, hsplitShape⟩ := sameShape_iff_written_showStatements_eq hread hsplit
    (show Sink.unlimited.room = none from rfl)
  refine ⟨hread, hspread, hspreadShape.mpr rfl, fun h => ?_⟩
  -- One string with a comma is no list of two strings.
  have hshape := hsplitShape.mp h
  simp [Program.SameShape, Program.disguised, Program.mapLines, Statement.mapLines,
    Expression.mapLines, Expression.mapLinesAll] at hshape

end Scriptlet
