import Mathlib
import Scriptlet.Proofs.Syntax.Writable
import Scriptlet.Script

/-!
# Source texts and programs

A program can be rendered as a source text in many ways: with more or fewer parentheses, with a
short or a long form for a function whose body is a call, and with blanks and comments wherever
tokens meet. Whatever way is taken, reading gives the program back, but for its lines. Every source
text that can be read is a rendering of what is read, and the programs that have a rendering are
exactly the writable ones.

* `Renders source program` says that the source text is a layout of tokens that write the program.
* `readSource_eq_ok_iff` takes reading apart into its two stages.
* `Renders.readSource_eq`, `writable_and_renders_of_readSource` and
  `Program.Writable.exists_renders` are the three parts of the result,
  `source_corresponds_to_program`.
-/

namespace Scriptlet

open Grammar Lexicon

/-- The text `source` is a `Layout` of kinds of tokens with which `WritesProgram` writes
`program`. -/
def Renders (source : String) (program : Program) : Prop :=
  ∃ kinds, Layout source.toList kinds ∧ WritesProgram kinds program

/-- Reading taken apart into its two stages: the token stream of `source` has tokens only, and
`readProgram` reads these as `program`. -/
theorem readSource_eq_ok_iff {source : String} {program : Program} :
    readSource source = .ok program ↔
      ∃ tokens : List Token, tokenStream source = tokens.map .ok ∧
        readProgram tokens = .ok program := by
  unfold readSource
  constructor
  · intro h
    rcases hlex : lex source with ⟨tokens, _ | ⟨error, errors⟩⟩ <;> rw [hlex] at h
    · refine ⟨tokens, lex_eq_iff.mp hlex, ?_⟩
      dsimp only at h
      rcases hread : readProgram tokens with error | read <;> rw [hread] at h
      · cases h
      · rw [Except.ok.inj h]
    · cases h
  · rintro ⟨tokens, hstream, hread⟩
    rw [lex_eq_iff.mpr hstream]
    dsimp only
    rw [hread]

/-- A rendering of a `Writable` program is read as the program, but for its lines. -/
theorem Renders.readSource_eq {source : String} {program : Program} (h : Renders source program)
    (hwritable : program.Writable) :
    ∃ read, readSource source = .ok read ∧ Program.SameShape read program := by
  obtain ⟨kinds, hlayout, hwrites⟩ := h
  obtain ⟨tokens, hstream, hkinds⟩ := hlayout.items_eq 1
  obtain ⟨read, hderives, hshape⟩ := hwrites.isDerived hwritable hkinds
  have hread : readProgram tokens = .ok read := DerivesProgram.readProgram_eq hderives
  exact ⟨read, readSource_eq_ok_iff.mpr ⟨tokens, hstream, hread⟩, hshape⟩

/-- A source text that can be read is a rendering of what is read, and this is `Writable`. -/
theorem writable_and_renders_of_readSource {source : String} {program : Program}
    (h : readSource source = .ok program) : program.Writable ∧ Renders source program := by
  obtain ⟨tokens, hstream, hread⟩ := readSource_eq_ok_iff.mp h
  have hlayout : Layout source.toList (tokens.map Token.kind) := layout_of_items hstream
  have hderives := derivesProgram_of_readProgram hread
  have hspellable : Spellable (tokens.map Token.kind) :=
    fun kind hmem => (hlayout.spelled kind hmem).payload
  exact ⟨DerivesClause.writable hderives hspellable, _, hlayout, DerivesClause.writes hderives⟩

/-- Every `Writable` program has a rendering. -/
theorem Program.Writable.exists_renders {program : Program} (h : program.Writable) :
    ∃ source, Renders source program := by
  obtain ⟨kinds, hwrites, hspellable⟩ := Statement.exists_writesAll program h.1 h.2
  obtain ⟨text, hlayout⟩ := exists_layout fun kind hmem => spelled_of_payload (hspellable kind hmem)
  refine ⟨String.ofList text, kinds, ?_, hwrites⟩
  rwa [String.toList_ofList]

/-- **Source texts and programs correspond.** A text that `Renders` a `Writable` program is
read as a program of the `SameShape`. What `readSource` gives is `Writable`, and `source`
renders it. There is a `rendering` of every writable program. -/
theorem source_corresponds_to_program (source : String) (program : Program) :
    (program.Writable → Renders source program →
      ∃ read, readSource source = .ok read ∧ Program.SameShape read program) ∧
    (readSource source = .ok program → program.Writable ∧ Renders source program) ∧
    (program.Writable → ∃ rendering, Renders rendering program) :=
  ⟨fun hwritable hrenders => hrenders.readSource_eq hwritable,
    writable_and_renders_of_readSource, fun hwritable => hwritable.exists_renders⟩

/-- A call with a difference whose right operand is a difference. -/
def Program.groupedDifference : Program :=
  [.evaluate (.call "f" [.binary .subtract (.identifier "a" 1)
    (.binary .subtract (.identifier "b" 1) (.literal 1) 1) 1] 1) 1]

/-- The parentheses around the right operand in `Program.groupedDifference` are needed, those
around the left one are not. -/
theorem groupedDifference_reads_back :
    Program.groupedDifference.Writable ∧
      Renders "f((a)-(b - 1)); -- end" Program.groupedDifference ∧
      ∃ read, readSource "f((a)-(b - 1)); -- end" = .ok read ∧
        Program.SameShape read Program.groupedDifference := by
  have hread : readSource "f((a)-(b - 1)); -- end" = .ok Program.groupedDifference := by cbv
  have hcorresponds :=
    source_corresponds_to_program "f((a)-(b - 1)); -- end" Program.groupedDifference
  obtain ⟨hwritable, hrenders⟩ := hcorresponds.2.1 hread
  exact ⟨hwritable, hrenders, hcorresponds.1 hwritable hrenders⟩

end Scriptlet
