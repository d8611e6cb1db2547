import Ferrotype.Grammar.Cursor
import Ferrotype.Proofs.Grammar.TypeComplete

/-!
# Types

Every type that can be written is read from its words, whatever type it stands in and whatever
follows, unless that goes on with it.
-/

namespace Ferrotype

open Grammar

/--
A type is read from the tokens of its words, wherever these stand, and nothing behind them is read.
What is behind them may be anything but a mark that goes on with a path, with its arguments or its
output, with a macro call or with a list of bounds.
-/
theorem Cursor.read_written {t : Ty} (ht : t.Plain) {ts rest : List Token}
    (hs : Spells t.words ts)
    (hr : ∀ k ∈ rest.head?, k.kind ∉ ([.punct .lt, .opener .paren, .punct .colonColon,
      .punct .bang, .punct .plus, .punct .arrow] : List Kind)) (tokens : Tokens) (allowPlus : Bool) :
    (⟨tokens, ts ++ rest⟩ : Cursor).read (wholeType allowPlus) = .ok (t, ⟨tokens, rest⟩) := by
  have hd : TypeDone rest := by
    cases rest with
    | nil => rfl
    | cons k us =>
      have hk := hr k rfl
      change k.kind.extendsType = false
      unfold Kind.extendsType
      split
      case h_7 => rfl
      all_goals
        next he =>
          rw [he] at hk
          exact absurd (by simp) hk
  unfold Cursor.read
  rw [wholeType_written ht hs hd]

/-- `<[u8; 4]>::Item<'a, N = fn(&mut _) -> !>`, before an equals sign. -/
theorem Cursor.read_written_qualified :
    let bytes : Ty := .array (.path none false [.mk "u8" .none]) (.literal "4" .int)
    let pointer : Ty := .bareFn [.reference none true .infer] (some .never)
    let t : Ty := .path (some bytes) false
      [.mk "Item" (.angle [.lifetime "'a", .binding "N" pointer])]
    let ts := layout ⟨1, 1⟩ t.words
    let rest := [(Word.mark .eq).token ⟨1, 80⟩]
    " ".intercalate (ts.map Token.text) =
        "< [ u8 ; 4 ] > :: Item < 'a , N = fn ( & mut _ ) -> ! >" ∧
      (⟨⟨ts ++ rest, ⟨1, 81⟩⟩, ts ++ rest⟩ : Cursor).read (wholeType true) =
        .ok (t, ⟨⟨ts ++ rest, ⟨1, 81⟩⟩, rest⟩) := by
  intro bytes pointer t ts rest
  have hb : bytes.Plain :=
    .array (.path (by simpa using .mk .none) ⟨by simp, by simp⟩) .plain
  have hp : pointer.Plain := .bareFn (by simpa using .reference .infer) (by simpa using .never)
  have ht : t.Plain := by
    refine .qualified hb ?_ ⟨by simp, by simp⟩
    rw [List.forall_mem_singleton]
    refine .mk (.angle ?_)
    simpa using ⟨.lifetime, .binding hp⟩
  refine ⟨by decide, Cursor.read_written ht (by rfl) ?_ _ true⟩
  simp [rest, Word.token, Word.mark]

end Ferrotype
