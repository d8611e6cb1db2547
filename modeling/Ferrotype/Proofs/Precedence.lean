import Ferrotype.Proofs.Grammar.Operators

/-!
# Precedence

Every expression that is read has its operators where their precedences put them, and every plain
expression of that kind is read from its words.
-/

namespace Ferrotype

namespace Grammar

open Rule

/--
An expression that is read is shaped. A plain one that is shaped is read as it is written, up to a
comma, a semicolon or a closer. Operators of one precedence associate to the left.
-/
theorem expressions_read :
    (∀ ts e rest, whole (fun R => binary R 1) ts = .ok (e, rest) → e.Shaped) ∧
      ∀ e : Expr, e.Plain → e.Shaped → ∀ p,
        ∀ w ∈ ([.mark .comma, .mark .semicolon, .closer .bracket, .closer .paren,
          .closer .brace] : List Word), ∀ q rest,
          whole (fun R => binary R 1) (layout p e.words ++ w.token q :: rest) =
            .ok (e, w.token q :: rest) := by
  constructor
  · intro ts e rest h
    exact (binary_yields (rules_shaped ts.length) (by decide) ts e rest h).2.1
  · intro e hp hs p w hw q rest
    exact hp.reads hs p ⟨w, hw, q, rest, rfl⟩

/-- In `a - b << -c[0]` the difference is shifted, and the sign applies to the element of `c`. -/
theorem expressions_read_shift :
    let name (s : String) : Expr := .path [s] false false
    let e : Expr := .binary (.binary (name "a") .sub (name "b")) .shl
      (.unary .neg (.index (name "c") (.literal "0" .int)))
    let ts := layout ⟨1, 1⟩ e.words ++ [(Word.mark .comma).token ⟨1, 20⟩]
    ts.map Token.text = ["a", "-", "b", "<", "<", "-", "c", "[", "0", "]", ","] ∧
      whole (fun R => binary R 1) ts = .ok (e, [(Word.mark .comma).token ⟨1, 20⟩]) ∧
        e.Shaped := by
  intro name e ts
  have hn (s : String) : (name s).Plain := .path (by simp)
  have hp : e.Plain :=
    .binary (.binary (hn "a") (hn "b")) (.unary (.index (hn "c") (.literal (by simp))))
  have hs : e.Shaped :=
    .binary (.binary .path .path (by decide) (by decide))
      (.unary (.index .path (by decide) .literal) (by decide)) (by decide) (by decide)
  have hr := expressions_read.2 e hp hs ⟨1, 1⟩ (.mark .comma) (by simp) ⟨1, 20⟩ []
  exact ⟨by decide, hr, expressions_read.1 _ _ _ hr⟩

end Grammar

end Ferrotype
