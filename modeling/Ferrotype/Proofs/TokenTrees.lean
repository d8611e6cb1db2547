import Ferrotype.Grammar.Cursor
import Ferrotype.Proofs.Grammar.Trees
import Ferrotype.Proofs.Reworded.Steps

/-!
# Reading over a token tree

From any place of any list of tokens, the reader goes over the token tree that starts there, and
over nothing else. Where none starts, the delimiter is blamed for which there is none.
-/

namespace Ferrotype

namespace Cursor

/-- The cursor behind the first `p` tokens. -/
def behind (tokens : Tokens) (p : Nat) : Cursor := ⟨tokens, tokens.list.drop p⟩

theorem position_behind {tokens : Tokens} {p : Nat} (h : p ≤ tokens.list.length) :
    (behind tokens p).position = p := by
  simp only [position, behind, List.length_drop]
  omega

theorem read_skipTree_ok (c : Cursor) {d : Cursor} : c.read Rule.skipTree = .ok ((), d) ↔
    ∃ rest, Grammar.dropTree c.rest = .ok rest ∧ d = { c with rest } := by
  unfold read
  cases h : Grammar.dropTree c.rest with
  | ok rest =>
    rw [Rule.run_skipTree (u := ()).2 h]
    simp [eq_comm]
  | error fault =>
    rw [Rule.skipTree, Rule.Agree.dropping_error h]
    simp

theorem read_skipTree_error (c : Cursor) {e : SyntaxError} :
    c.read Rule.skipTree = .error e ↔
      ∃ fault, Grammar.dropTree c.rest = .error fault ∧ e = .ofGrammar c.tokens.finish fault := by
  unfold read
  cases h : Grammar.dropTree c.rest with
  | ok rest =>
    rw [Rule.run_skipTree (u := ()).2 h]
    simp
  | error fault =>
    rw [Rule.skipTree, Rule.Agree.dropping_error h]
    simp [eq_comm]

/-- A fault is placed at the token that it blames. -/
theorem place_noTree {ts : List Token} {fault : GrammarFault} {t : Option Token}
    (h : NoTree ts fault t) (finish : Position) :
    SyntaxError.ofGrammar finish fault = ⟨.grammar fault, some (t.elim finish Token.place)⟩ := by
  cases h <;> rfl

/--
The reader goes over a token tree just if one starts in front of it, which is the only one, and
comes to the token behind it. Otherwise it is stopped by a closer that nothing opened or that is
of another kind than the innermost open delimiter, or by the end of the file, which it reports at
the innermost delimiter that is still open, if there is any.
-/
theorem skipTree_exact (tokens : Tokens) (p : Nat) :
    (∀ c, (behind tokens p).read Rule.skipTree = .ok ((), c) ↔
      ∃ tree, IsTree tree ∧ tree <+: tokens.list.drop p ∧
        c = behind tokens (p + tree.length) ∧ c.position = p + tree.length) ∧
    (∀ tree tree', IsTree tree → IsTree tree' → tree <+: tokens.list.drop p →
      tree' <+: tokens.list.drop p → tree = tree') ∧
    ∀ e, (behind tokens p).read Rule.skipTree = .error e ↔
      ∃ fault t, NoTree (tokens.list.drop p) fault t ∧
        e = ⟨.grammar fault, some (t.elim tokens.finish Token.place)⟩ := by
  refine ⟨fun c => ?_, fun tree tree' ht ht' hp hp' => ?_, fun e => ?_⟩
  · rw [read_skipTree_ok]
    constructor
    · rintro ⟨rest, hd, rfl⟩
      have hlt := Grammar.dropTree_length hd
      obtain ⟨tree, ht, hr⟩ := Grammar.dropTree_eq_ok.1 hd
      change tokens.list.drop p = tree ++ rest at hr
      have hl : tokens.list.length - p = tree.length + rest.length := by
        rw [← List.length_drop, hr, List.length_append]
      change rest.length < (tokens.list.drop p).length at hlt
      rw [List.length_drop] at hlt
      have hb : (⟨tokens, rest⟩ : Cursor) = behind tokens (p + tree.length) := by
        rw [behind, ← List.drop_drop, hr, List.drop_left]
      have hp := (congrArg position hb).trans (position_behind (by omega))
      exact ⟨tree, ht, ⟨rest, hr.symm⟩, hb, hp⟩
    · rintro ⟨tree, ht, ⟨rest, hr⟩, rfl, -⟩
      refine ⟨rest, Grammar.dropTree_eq_ok.2 ⟨tree, ht, hr.symm⟩, ?_⟩
      rw [behind, ← List.drop_drop, ← hr, List.drop_left]
      rfl
  · obtain ⟨rest, hr⟩ := hp
    obtain ⟨rest', hr'⟩ := hp'
    have h := Grammar.dropTree_tree ht rest
    rw [hr, ← hr', Grammar.dropTree_tree ht'] at h
    cases h
    exact List.append_cancel_right (hr.trans hr'.symm)
  · rw [read_skipTree_error]
    constructor
    · rintro ⟨fault, hd, rfl⟩
      obtain ⟨t, hn⟩ := Grammar.dropTree_eq_error.1 hd
      exact ⟨fault, t, hn, place_noTree hn _⟩
    · rintro ⟨fault, t, hn, rfl⟩
      exact ⟨fault, hn.dropTree_eq, (place_noTree hn _).symm⟩

/-- A group with a group in it, and one whose innermost delimiter is closed as another one. -/
theorem skipTree_exact_group :
    (∃ tokens c, tokenize "([a]) b" = .ok tokens ∧
      (behind tokens 0).read Rule.skipTree = .ok ((), c) ∧ c.position = 5) ∧
    ∃ tokens e, tokenize "([a) b" = .ok tokens ∧
      (behind tokens 0).read Rule.skipTree = .error e ∧ e.place = some ⟨1, 4⟩ := by
  let o₁ : Token := ⟨.opener .paren, "(", ⟨1, 1⟩⟩
  let o₂ : Token := ⟨.opener .bracket, "[", ⟨1, 2⟩⟩
  let a : Token := ⟨.identifier, "a", ⟨1, 3⟩⟩
  have ha : IsTree [a] := .token rfl
  constructor
  · let c₂ : Token := ⟨.closer .bracket, "]", ⟨1, 4⟩⟩
    let c₁ : Token := ⟨.closer .paren, ")", ⟨1, 5⟩⟩
    let b : Token := ⟨.identifier, "b", ⟨1, 7⟩⟩
    let tokens : Tokens := ⟨[o₁, o₂, a, c₂, c₁, b], ⟨1, 8⟩⟩
    have hi : IsTree [o₂, a, c₂] := (AreTrees.nil.snoc ha).group rfl rfl
    have ht : IsTree [o₁, o₂, a, c₂, c₁] := (AreTrees.nil.snoc hi).group rfl rfl
    refine ⟨tokens, behind tokens 5, ok_of_toOption (by decide +kernel), ?_, rfl⟩
    exact ((skipTree_exact tokens 0).1 _).2 ⟨_, ht, ⟨[b], rfl⟩, rfl, rfl⟩
  · let c : Token := ⟨.closer .paren, ")", ⟨1, 4⟩⟩
    let b : Token := ⟨.identifier, "b", ⟨1, 6⟩⟩
    let tokens : Tokens := ⟨[o₁, o₂, a, c, b], ⟨1, 7⟩⟩
    have ho : Opens [o₂, o₁] [o₁, o₂, a] :=
      ((Opens.nothing.snoc_opener rfl).snoc_opener rfl).snoc_tree ha
    have hn : NoTree ([o₁, o₂, a] ++ c :: [b]) (.mismatched o₂ c) (some c) :=
      .mismatched ho rfl (by decide)
    refine ⟨tokens, ⟨.grammar (.mismatched o₂ c), some ⟨1, 4⟩⟩, ok_of_toOption (by decide +kernel),
      ?_, rfl⟩
    exact ((skipTree_exact tokens 0).2.2 _).2 ⟨_, _, hn, rfl⟩

end Cursor

end Ferrotype
