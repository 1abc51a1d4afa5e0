import TinyScript.Proofs.Layout.Reading
import TinyScript.Proofs.Syntax.Completeness

/-! # Writings are read back, wherever their tokens stand

A program is a tree whose lines nobody chose: they follow from where its tokens stand. So tokens are a
writing of a program, lines aside, when without their lines they are a writing of the program without its
lines. **Whatever lines the tokens of a writing stand on, they are read without an error and as the program
that was written** (`Feed.parse_of_written_unlined`): with parentheses only where an operand binds looser
than its place asks, or with more of them.
-/

namespace TinyScript

/-- Tokens that write a program, lines aside, are read as that program, lines aside. -/
theorem Feed.parse_of_written_unlined {program : Program} {tokens rest : List Token} {line : Nat}
    (hw : Statement.WrittenAll (Statement.unlinedAll program) (tokens.map Token.unlined))
    (he : (Feed.mk rest line).head.kind = .endOfInput) :
    (Feed.mk (tokens ++ rest) line).parse.errors = [] ∧
      Statement.unlinedAll (Feed.mk (tokens ++ rest) line).parse.program =
        Statement.unlinedAll program := by
  have hr : (Feed.mk (rest.map Token.unlined) 0).head.kind = .endOfInput := by
    have hh := Feed.head_relined (fun _ => 0) (Feed.mk rest line)
    exact (congrArg Token.kind hh).trans he
  have hp := Feed.parse_relined (fun _ => 0) (Feed.mk (tokens ++ rest) line)
  have hf : (Feed.mk (tokens ++ rest) line).relined (fun _ => 0) =
      Feed.mk (tokens.map Token.unlined ++ rest.map Token.unlined) 0 :=
    congrArg (Feed.mk · 0) List.map_append
  rw [hf, Feed.parse_of_written hw hr] at hp
  exact ⟨List.map_eq_nil_iff.mp (congrArg Parse.errors hp).symm, (congrArg Parse.program hp).symm⟩

/-- `a - (b - c) * -d;` over three lines. -/
theorem Feed.parse_of_written_unlined_difference :
    let a : Expr := .ident ⟨"a", 0⟩
    let b : Expr := .ident ⟨"b", 0⟩
    let c : Expr := .ident ⟨"c", 0⟩
    let d : Expr := .ident ⟨"d", 0⟩
    let program : Program :=
      [.expression (.binary .sub a (.binary .mul (.binary .sub b c 0) (.unary .negate d 0) 0) 0) 0]
    let tokens : List Token :=
      [⟨.identifier, "a", 1⟩, ⟨.minus, "-", 1⟩, ⟨.leftParen, "(", 2⟩, ⟨.identifier, "b", 2⟩,
        ⟨.minus, "-", 2⟩, ⟨.identifier, "c", 2⟩, ⟨.rightParen, ")", 2⟩, ⟨.asterisk, "*", 3⟩,
        ⟨.minus, "-", 3⟩, ⟨.identifier, "d", 3⟩, ⟨.semicolon, ";", 3⟩]
    Statement.WrittenAll (Statement.unlinedAll program) (tokens.map Token.unlined) ∧
      (Feed.mk [] 4).head.kind = .endOfInput ∧
      (Feed.mk (tokens ++ []) 4).parse.errors = [] ∧
      Statement.unlinedAll (Feed.mk (tokens ++ []) 4).parse.program = Statement.unlinedAll program := by
  intro a b c d program tokens
  have product : Expr.Written (BinaryOp.sub.level.rank + 1) _ _ :=
    .binary ⟨.asterisk, "*", 0⟩ .mul (by decide)
      (.grouped ⟨.leftParen, "(", 0⟩ ⟨.rightParen, ")", 0⟩ rfl
        (.binary ⟨.minus, "-", 0⟩ .sub (by decide) (.ident ⟨.identifier, "b", 0⟩ rfl) rfl
          (.ident ⟨.identifier, "c", 0⟩ rfl)) rfl) rfl
      (.unary ⟨.minus, "-", 0⟩ .negate (by decide) rfl (.ident ⟨.identifier, "d", 0⟩ rfl))
  have difference : Expr.Written 0 _ _ :=
    .binary ⟨.minus, "-", 0⟩ .sub (by decide) (.ident ⟨.identifier, "a", 0⟩ rfl) rfl product
  have hw : Statement.WrittenAll _ _ :=
    .ended ⟨.semicolon, ";", 0⟩ (.expression ⟨.identifier, "a", 0⟩ difference) rfl .nil
  exact ⟨hw, rfl, @Feed.parse_of_written_unlined program tokens [] 4 hw rfl⟩

end TinyScript
