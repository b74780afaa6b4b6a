import Mathlib.Data.List.Basic
import Scriptlet.Proofs.Newlines

/-!
# Lines of the input

An input is cut behind every newline byte. A read takes the first of these lines, whatever follows
it, and gives its text without the line break.

* `Input.lines` are the lines of an input, and `Input.IsCut` says what a cut into lines is:
  `lines_eq_iff` says that there is no other one.
* `Input.lineText` is the text of a line: its characters without the break at its end.
* `readLine_eq` says what a read gives and what it leaves.
-/

namespace Scriptlet.Input

/-! ## Cutting -/

/-- The lines of an input, each with the `newline` byte that ends it. The last one may have
none. -/
def lines : List UInt8 → List (List UInt8)
  | [] => []
  | byte :: input =>
    if byte = newline then [newline] :: lines input
    else
      match lines input with
      | [] => [[byte]]
      | line :: rest => (byte :: line) :: rest

/-- A line that ends in a `newline` and has no other one. -/
def Complete (line : List UInt8) : Prop :=
  ∃ body, newline ∉ body ∧ line = body ++ [newline]

/-- Lines in a row: all of them are `Complete`, but the last one may have no newline instead. -/
inductive IsCut : List (List UInt8) → Prop where
  | nil : IsCut []
  | unterminated {line : List UInt8} (hne : line ≠ []) (h : newline ∉ line) : IsCut [line]
  | complete {line : List UInt8} {rest : List (List UInt8)} (h : Complete line)
      (hrest : IsCut rest) : IsCut (line :: rest)

@[simp]
theorem lines_nil : lines [] = [] := rfl

/-- The first line of an input ends at its first newline. -/
theorem lines_append_newline {body : List UInt8} (h : newline ∉ body) (rest : List UInt8) :
    lines (body ++ newline :: rest) = (body ++ [newline]) :: lines rest := by
  induction body with
  | nil => simp [lines]
  | cons byte body ih =>
    rw [List.mem_cons, not_or] at h
    rw [List.cons_append, lines, if_neg (Ne.symm h.1), ih h.2]
    rfl

theorem lines_of_newline_notMem {input : List UInt8} (hne : input ≠ []) (h : newline ∉ input) :
    lines input = [input] := by
  induction input with
  | nil => exact absurd rfl hne
  | cons byte input ih =>
    rw [List.mem_cons, not_or] at h
    rw [lines, if_neg (Ne.symm h.1)]
    rcases input with _ | ⟨next, input⟩
    · rfl
    · rw [ih (List.cons_ne_nil _ _) h.2]

/-- A `Complete` line in front of `rest` is its first line. -/
theorem Complete.lines_append {line : List UInt8} (h : Complete line) (rest : List UInt8) :
    lines (line ++ rest) = line :: lines rest := by
  obtain ⟨body, hbody, rfl⟩ := h
  rw [List.append_assoc, List.singleton_append, lines_append_newline hbody]

theorem lines_flatten_append {first : List (List UInt8)} (h : ∀ line ∈ first, Complete line)
    (rest : List UInt8) : lines (first.flatten ++ rest) = first ++ lines rest := by
  induction first with
  | nil => rfl
  | cons line first ih =>
    rw [List.forall_mem_cons] at h
    rw [List.flatten_cons, List.append_assoc, h.1.lines_append, ih h.2, List.cons_append]

/-- Lines in a row are found again when `lines` cuts the input that they make up. -/
theorem IsCut.lines_flatten {cut : List (List UInt8)} (h : IsCut cut) :
    lines cut.flatten = cut := by
  induction h with
  | nil => rfl
  | unterminated hne h =>
    rw [List.flatten_singleton]
    exact lines_of_newline_notMem hne h
  | complete h _ ih => rw [List.flatten_cons, h.lines_append, ih]

theorem isCut_lines (input : List UInt8) : IsCut (lines input) := by
  induction input with
  | nil => exact .nil
  | cons byte input ih =>
    rw [lines]
    by_cases hbyte : byte = newline
    · rw [if_pos hbyte]
      exact .complete ⟨[], List.not_mem_nil, rfl⟩ ih
    · rw [if_neg hbyte]
      -- The byte goes to the front of the line behind it, if there is one.
      generalize lines input = cut at ih
      cases ih with
      | nil => exact .unterminated (List.cons_ne_nil _ _) (by simpa using Ne.symm hbyte)
      | unterminated _ h =>
        exact .unterminated (List.cons_ne_nil _ _) (by simp [h, Ne.symm hbyte])
      | complete h hrest =>
        obtain ⟨body, hbody, rfl⟩ := h
        exact .complete ⟨byte :: body, by simp [hbody, Ne.symm hbyte], rfl⟩ hrest

/-- Cutting loses no byte. -/
@[simp]
theorem flatten_lines (input : List UInt8) : (lines input).flatten = input := by
  induction input with
  | nil => rfl
  | cons byte input ih =>
    rw [lines]
    by_cases hbyte : byte = newline
    · rw [if_pos hbyte, List.flatten_cons, ih, hbyte]
      rfl
    · rw [if_neg hbyte]
      rcases hlines : lines input with _ | ⟨line, rest⟩ <;> rw [hlines] at ih <;> rw [← ih] <;> rfl

theorem lines_eq_nil_iff {input : List UInt8} : lines input = [] ↔ input = [] := by
  constructor
  · intro h
    rw [← flatten_lines input, h, List.flatten_nil]
  · rintro rfl
    rfl

theorem IsCut.head_ne_nil {line : List UInt8} {rest : List (List UInt8)}
    (h : IsCut (line :: rest)) : line ≠ [] := by
  cases h with
  | unterminated hne _ => exact hne
  | complete h _ =>
    obtain ⟨body, -, rfl⟩ := h
    exact List.append_ne_nil_of_right_ne_nil _ (List.cons_ne_nil _ _)

/-- There is one way to cut `input` into lines: `lines` gives the cut for which `IsCut` holds. -/
theorem lines_eq_iff {input : List UInt8} {cut : List (List UInt8)} :
    lines input = cut ↔ IsCut cut ∧ cut.flatten = input := by
  constructor
  · rintro rfl
    exact ⟨isCut_lines input, flatten_lines input⟩
  · rintro ⟨hcut, rfl⟩
    exact hcut.lines_flatten

theorem IsCut.drop {cut : List (List UInt8)} (h : IsCut cut) (count : Nat) :
    IsCut (cut.drop count) := by
  -- A cut is dropped line by line from its front.
  induction h generalizing count with
  | nil =>
    rw [List.drop_nil]
    exact .nil
  | unterminated hne h =>
    rcases count with _ | count
    · exact .unterminated hne h
    · rw [List.drop_succ_cons, List.drop_nil]
      exact .nil
  | complete h hrest ih =>
    rcases count with _ | count
    · exact .complete h hrest
    · exact ih count

/-- The input that is left behind `count` lines has the other lines. -/
@[simp]
theorem lines_flatten_drop (input : List UInt8) (count : Nat) :
    lines ((lines input).drop count).flatten = (lines input).drop count :=
  ((isCut_lines input).drop count).lines_flatten

/-- Lines that others follow are `Complete`. -/
theorem IsCut.complete_of_append {first second : List (List UInt8)} (h : IsCut (first ++ second))
    (hsecond : second ≠ []) : ∀ line ∈ first, Complete line := by
  induction first with
  | nil => exact List.forall_mem_nil _
  | cons line first ih =>
    rw [List.cons_append] at h
    generalize hrest : first ++ second = rest at h
    cases h with
    | unterminated _ _ => exact absurd (List.append_eq_nil_iff.mp hrest).2 hsecond
    | complete hline hcut => exact List.forall_mem_cons.mpr ⟨hline, ih (hrest ▸ hcut)⟩

/-- Every line of `input` ends in a newline. -/
def Terminated (input : List UInt8) : Prop :=
  ∀ line ∈ lines input, Complete line

theorem lines_flatten_of_complete {cut : List (List UInt8)} (h : ∀ line ∈ cut, Complete line) :
    lines cut.flatten = cut := by
  have hlines := lines_flatten_append h []
  rwa [List.append_nil, lines_nil, List.append_nil] at hlines

/-- What follows a `Terminated` input begins a line of its own. -/
theorem Terminated.lines_append {input : List UInt8} (h : Terminated input) (rest : List UInt8) :
    lines (input ++ rest) = lines input ++ lines rest := by
  have hlines := lines_flatten_append h rest
  rwa [flatten_lines] at hlines

/-- A `Terminated` input without some of its first lines is `Terminated`. -/
theorem Terminated.drop {input : List UInt8} (h : Terminated input) (count : Nat) :
    Terminated ((lines input).drop count).flatten := by
  unfold Terminated
  rw [lines_flatten_drop]
  exact fun line hline => h line (List.mem_of_mem_drop hline)

/-! ## Texts of lines -/

/-- The characters of `text` without the line break at their end: a newline, and one carriage
return that stands right before it. -/
def dropBreak (text : List Char) : List Char :=
  match text.reverse with
  | '\n' :: '\r' :: before => before.reverse
  | '\n' :: before => before.reverse
  | _ => text

/-- What a read makes of `line`: its characters without the break that `dropBreak` finds, if
the bytes are those of characters. -/
def lineText (line : List UInt8) : Except TransferError String :=
  match decode? line with
  | some text => .ok (String.ofList (dropBreak text.toList))
  | none => .error .malformedText

/-- What a read gives when this line is the next one, or when there is none. -/
def answer : Option (List UInt8) → Except TransferError String
  | none => .error .endOfInput
  | some line => lineText line

/-- The function `decode?` inverts `String.toUTF8`: bytes decode to the text that they encode
and to no other one. -/
theorem decode?_eq_some_iff {bytes : List UInt8} {text : String} :
    decode? bytes = some text ↔ text.toUTF8.data.toList = bytes := by
  constructor
  · exact toUTF8_of_decode?
  · rintro rfl
    exact dif_pos text.isValidUTF8

/-- A byte below 128 at the end of `bytes` is a character of its own, whatever stands before
it. -/
theorem decode?_append_singleton {byte : UInt8} {c : Char} (hbyte : byte.toNat < 128)
    (hc : String.utf8EncodeChar c = [byte]) (bytes : List UInt8) :
    decode? (bytes ++ [byte]) = (decode? bytes).map fun text => text.push c := by
  have hnumber : c.toNat = byte.toNat :=
    toNat_eq_of_mem_utf8EncodeChar hbyte (by rw [hc]; exact List.mem_singleton_self byte)
  ext text
  rw [Option.map_eq_some_iff, decode?_eq_some_iff, toList_toUTF8]
  constructor
  · intro h
    rcases List.eq_nil_or_concat' text.toList with hnil | ⟨before, last, htext⟩
    · rw [hnil] at h
      exact absurd h.symm (List.append_ne_nil_of_right_ne_nil _ (List.cons_ne_nil _ _))
    · rw [htext, List.flatMap_append, List.flatMap_singleton] at h
      -- The last character is the only one whose encoding can end in this byte.
      have hend : (String.utf8EncodeChar last).getLast? = some byte := by
        have hends := congrArg List.getLast? h
        rwa [List.getLast?_append_of_ne_nil _ String.utf8EncodeChar_ne_nil,
          List.getLast?_concat] at hends
      have hlast : last = c := by
        refine Char.toNat_inj.mp (Eq.trans ?_ hnumber.symm)
        exact toNat_eq_of_mem_utf8EncodeChar hbyte (List.mem_of_getLast? hend)
      rw [hlast, hc, List.append_cancel_right_eq] at h
      refine ⟨String.ofList before, ?_, ?_⟩
      · rw [decode?_eq_some_iff, toList_toUTF8, String.toList_ofList, h]
      · rw [← String.toList_inj, String.toList_push, String.toList_ofList, htext, hlast]
  · rintro ⟨before, hbefore, rfl⟩
    rw [decode?_eq_some_iff, toList_toUTF8] at hbefore
    rw [String.toList_push, List.flatMap_append, List.flatMap_singleton, hbefore, hc]

/-- The text of `bytes` has a newline if they have a `newline` byte. -/
theorem newline_mem_of_decode? {bytes : List UInt8} {text : String}
    (h : decode? bytes = some text) : '\n' ∈ text.toList ↔ newline ∈ bytes := by
  rw [← toUTF8_of_decode? h, ← List.count_pos_iff, ← List.count_pos_iff, count_newline_toUTF8]

theorem dropBreak_newline (text : List Char) (h : text.getLast? ≠ some '\r') :
    dropBreak (text ++ ['\n']) = text := by
  unfold dropBreak
  rw [List.reverse_append, List.reverse_singleton, List.singleton_append]
  rw [← List.head?_reverse] at h
  split
  · rename_i before hreverse
    obtain ⟨-, hreverse⟩ := List.cons.inj hreverse
    rw [hreverse] at h
    exact absurd rfl h
  · rename_i before _ hreverse
    rw [← (List.cons.inj hreverse).2, List.reverse_reverse]
  · rename_i hother
    exact absurd rfl (hother _)

theorem dropBreak_return_newline (text : List Char) :
    dropBreak (text ++ ['\r', '\n']) = text := by
  unfold dropBreak
  rw [List.reverse_append]
  exact List.reverse_reverse text

theorem dropBreak_of_newline_notMem {text : List Char} (h : '\n' ∉ text) :
    dropBreak text = text := by
  rw [← List.mem_reverse] at h
  unfold dropBreak
  split
  · rename_i hreverse
    rw [hreverse] at h
    exact absurd List.mem_cons_self h
  · rename_i hreverse
    rw [hreverse] at h
    exact absurd List.mem_cons_self h
  · rfl

/-- The text of an unterminated line is the whole line. -/
theorem lineText_of_newline_notMem {line : List UInt8} (h : newline ∉ line) :
    lineText line = match decode? line with
      | some text => .ok text
      | none => .error .malformedText := by
  unfold lineText
  rcases hdecode : decode? line with _ | text
  · rfl
  · dsimp only
    rw [← newline_mem_of_decode? hdecode] at h
    rw [dropBreak_of_newline_notMem h, String.ofList_toList]

theorem decode?_append_newline (body : List UInt8) :
    decode? (body ++ [newline]) = (decode? body).map fun text => text.push '\n' :=
  decode?_append_singleton (by decide) rfl body

theorem decode?_append_carriageReturn (body : List UInt8) :
    decode? (body ++ [carriageReturn]) = (decode? body).map fun text => text.push '\r' :=
  decode?_append_singleton (by decide) rfl body

/-- The text of a line with a newline is that of `dropCarriageReturn body`: the bytes that
`readLine` drops are the characters that `dropBreak` drops. -/
theorem lineText_append_newline (body : List UInt8) :
    lineText (body ++ [newline]) = match decode? (dropCarriageReturn body) with
      | some text => .ok text
      | none => .error .malformedText := by
  unfold lineText dropCarriageReturn
  rw [decode?_append_newline]
  by_cases hreturn : body.getLast? = some carriageReturn
  · obtain ⟨before, rfl⟩ := List.getLast?_eq_some_iff.mp hreturn
    rw [if_pos hreturn, List.dropLast_concat, decode?_append_carriageReturn]
    rcases decode? before with _ | text
    · rfl
    · dsimp only [Option.map_some]
      rw [String.toList_push, String.toList_push, List.append_assoc, List.singleton_append,
        dropBreak_return_newline, String.ofList_toList]
  · rw [if_neg hreturn]
    rcases hdecode : decode? body with _ | text
    · rfl
    · dsimp only [Option.map_some]
      -- A carriage return at the end of the text would be one at the end of the line.
      have hend : text.toList.getLast? ≠ some '\r' := by
        intro hlast
        obtain ⟨before, hbefore⟩ := List.getLast?_eq_some_iff.mp hlast
        rw [decode?_eq_some_iff, toList_toUTF8, hbefore, List.flatMap_append,
          List.flatMap_singleton] at hdecode
        exact hreturn (List.getLast?_eq_some_iff.mpr ⟨_, hdecode.symm⟩)
      rw [String.toList_push, dropBreak_newline _ hend, String.ofList_toList]

/-! ## Reading -/

theorem splitLine_append_newline {body : List UInt8} (h : newline ∉ body) (rest : List UInt8) :
    splitLine (body ++ newline :: rest) = (body, true, rest) := by
  have hbody : ∀ byte ∈ body, (byte != newline) = true :=
    fun byte hbyte => bne_iff_ne.mpr fun heq => h (heq ▸ hbyte)
  unfold splitLine
  rw [List.dropWhile_append_of_pos hbody, List.takeWhile_append_of_pos hbody,
    List.dropWhile_cons_of_neg (by simp), List.takeWhile_cons_of_neg (by simp), List.append_nil]

theorem splitLine_of_newline_notMem {input : List UInt8} (h : newline ∉ input) :
    splitLine input = (input, false, []) := by
  have hinput : ∀ byte ∈ input, (byte != newline) = true :=
    fun byte hbyte => bne_iff_ne.mpr fun heq => h (heq ▸ hbyte)
  unfold splitLine
  rw [List.dropWhile_eq_nil_iff.mpr hinput, List.takeWhile_eq_self_iff.mpr hinput]

/-- A read takes the first of the `lines` of an input and gives the `answer` that is its text. -/
theorem readLine_eq (input : List UInt8) :
    readLine input = (answer (lines input).head?, (lines input).tail.flatten) := by
  rcases input with _ | ⟨byte, input⟩
  · rfl
  generalize hbytes : byte :: input = bytes
  have hne : bytes ≠ [] := hbytes ▸ List.cons_ne_nil byte input
  unfold readLine
  rw [if_neg (by rwa [List.isEmpty_iff])]
  -- The line ends at the first newline, or it takes all that is left.
  by_cases hnewline : newline ∈ bytes
  · obtain ⟨body, rest, rfl, hbody⟩ := List.eq_append_cons_of_mem hnewline
    rw [splitLine_append_newline hbody, lines_append_newline hbody, List.head?_cons,
      List.tail_cons, flatten_lines, answer, lineText_append_newline]
    dsimp only
    rw [if_pos rfl]
    rcases decode? (dropCarriageReturn body) with _ | text <;> rfl
  · rw [splitLine_of_newline_notMem hnewline, lines_of_newline_notMem hne hnewline,
      List.head?_cons, List.tail_cons, List.flatten_nil, answer,
      lineText_of_newline_notMem hnewline]
    dsimp only
    rw [if_neg Bool.false_ne_true]
    rcases decode? bytes with _ | text <;> rfl

/-- A read leaves a `Terminated` input behind. -/
theorem Terminated.readLine {input : List UInt8} (h : Terminated input) :
    Terminated (readLine input).2 := by
  rw [readLine_eq, ← List.drop_one]
  exact h.drop 1

/-- A read of a line does not depend on the `rest` that follows the terminated lines. -/
theorem Terminated.readLine_append {input : List UInt8} (h : Terminated input) (hne : input ≠ [])
    (rest : List UInt8) :
    Input.readLine (input ++ rest) =
      ((Input.readLine input).1, (Input.readLine input).2 ++ rest) := by
  obtain ⟨line, left, hlines⟩ := List.exists_cons_of_ne_nil (mt lines_eq_nil_iff.mp hne)
  rw [readLine_eq, readLine_eq, h.lines_append, hlines, List.cons_append, List.head?_cons,
    List.head?_cons, List.tail_cons, List.tail_cons, List.flatten_append, flatten_lines]

/-- A read takes something from an `input` that has something. -/
theorem length_readLine_lt {input : List UInt8} (hne : input ≠ []) :
    (readLine input).2.length < input.length := by
  obtain ⟨line, left, hlines⟩ := List.exists_cons_of_ne_nil (mt lines_eq_nil_iff.mp hne)
  have hcut := isCut_lines input
  have hinput := congrArg List.length (flatten_lines input)
  rw [hlines] at hcut hinput
  rw [List.flatten_cons, List.length_append] at hinput
  rw [readLine_eq, hlines, List.tail_cons, ← hinput]
  exact Nat.lt_add_of_pos_left (List.length_pos_iff.mpr hcut.head_ne_nil)

end Scriptlet.Input
