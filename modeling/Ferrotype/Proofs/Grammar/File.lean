import Ferrotype.Grammar.Cursor
import Ferrotype.Proofs.Grammar.Items

/-!
# Files

A file is read as a list of items, up to its last token.
-/

namespace Ferrotype.Grammar

open Rule

variable {w : Frame} {ts mid rest : List Token}

/-! ## Lists of items -/

/-- One turn of the list of items. -/
def itemTurn : Rule (Turn Item) := do
  if (← get).isEmpty then return .stop else return .more (← item)

theorem run_itemTurn {r : Turn Item} :
    itemTurn ts = .ok (r, rest) ↔
      (r = .stop ∧ ts = [] ∧ rest = []) ∨ ∃ i, r = .more i ∧ ts ≠ [] ∧ item ts = .ok (i, rest) := by
  cases ts with
  | nil =>
    change (.ok (Turn.stop, []) : Except GrammarFault _) = _ ↔ _
    simp [eq_comm]
  | cons t ts =>
    change (item >>= fun i => pure (Turn.more i)) (t :: ts) = _ ↔ _
    simp only [run_bind, run_pure]
    grind

theorem item_reads {i : Item} (hsp : Unmistakable ts) (h : item ts = .ok (i, rest)) (ds : List Delim) :
    Reads ds ds ts rest :=
  (item_ends (w := ⟨0, []⟩) ts ds hsp i rest h).1

/-- The items that a list of tokens is read as, each with what is left behind it. -/
inductive ItemsOf : List Token → List Item → Prop where
  | nil : ItemsOf [] []
  | cons {ts rest : List Token} {i : Item} {items : List Item} (h : item ts = .ok (i, rest))
      (hlt : rest.length < ts.length) (hr : ItemsOf rest items) : ItemsOf ts (i :: items)

theorem itemsOf_of_many {items : List Item} (hsp : Unmistakable ts)
    (h : many itemTurn ts = .ok (items, rest)) : rest = [] ∧ ItemsOf ts items := by
  refine many_induction (fun ts items rest => Unmistakable ts → rest = [] ∧ ItemsOf ts items)
    ?stop ?last ?more h hsp
  case stop =>
    intro ts rest h _
    rcases run_itemTurn.1 h with ⟨-, rfl, rfl⟩ | ⟨i, hi, -⟩
    · exact ⟨rfl, .nil⟩
    · cases hi
  case last =>
    intro ts i rest h _
    rcases run_itemTurn.1 h with ⟨hi, -⟩ | ⟨i, hi, -⟩ <;> cases hi
  case more =>
    intro ts i mid items rest h hlt _ ih hsp
    rcases run_itemTurn.1 h with ⟨hi, -⟩ | ⟨i, hi, -, h⟩
    · cases hi
    · cases hi
      obtain ⟨hr, ih⟩ := ih (hsp.of_suffix (item_reads hsp h []).suffix)
      exact ⟨hr, .cons h hlt ih⟩

theorem many_of_itemsOf {items : List Item} (h : ItemsOf ts items) :
    many itemTurn ts = .ok (items, []) := by
  induction h with
  | nil => exact many_stop (run_itemTurn.2 (.inl ⟨rfl, rfl, rfl⟩))
  | cons h hlt _ ih =>
    refine many_more (run_itemTurn.2 (.inr ⟨_, rfl, ?_, h⟩)) hlt ih
    rintro rfl
    cases hlt

/-- A file is its attributes and its items, and nothing is left. -/
theorem run_sourceFile {file : SourceFile} (hsp : Unmistakable ts) :
    sourceFile ts = .ok (file, rest) ↔
      rest = [] ∧ ∃ mid, whole innerAttributes ts = .ok (file.attributes, mid) ∧
        ItemsOf mid file.items := by
  change (whole innerAttributes >>= fun attributes => many itemTurn >>= fun items =>
    pure (SourceFile.mk attributes items)) ts = _ ↔ _
  simp only [run_bind, run_pure]
  constructor
  · rintro ⟨attributes, mid, ha, items, rest', hi, rfl, rfl⟩
    have hr := (whole_local (w := ⟨0, []⟩) innerAttributes_local ts [] hsp _ _ ha).1
    obtain ⟨rfl, his⟩ := itemsOf_of_many (hsp.of_suffix hr.suffix) hi
    exact ⟨rfl, mid, ha, his⟩
  · rintro ⟨rfl, mid, ha, hi⟩
    exact ⟨_, mid, ha, _, _, many_of_itemsOf hi, rfl, rfl⟩

theorem ItemsOf.reads {items : List Item} (h : ItemsOf ts items) (hsp : Unmistakable ts)
    (ds : List Delim) : Reads ds ds ts [] := by
  induction h with
  | nil => exact .refl ds []
  | cons h _ _ ih =>
    have hr := item_reads hsp h ds
    exact hr.trans (ih (hsp.of_suffix hr.suffix))

theorem sourceFile_reads {file : SourceFile} (hsp : Unmistakable ts)
    (h : sourceFile ts = .ok (file, rest)) (ds : List Delim) : Reads ds ds ts [] := by
  obtain ⟨-, mid, ha, hi⟩ := (run_sourceFile hsp).1 h
  have hr := (whole_local (w := ⟨0, []⟩) innerAttributes_local ts ds hsp _ _ ha).1
  exact hr.trans (hi.reads (hsp.of_suffix hr.suffix) ds)

end Ferrotype.Grammar

namespace Ferrotype.SourceFile

theorem ofTokens_eq_ok {tokens : Tokens} {file : SourceFile} :
    ofTokens tokens = .ok file ↔ ∃ rest, Grammar.sourceFile tokens.list = .ok (file, rest) := by
  simp only [ofTokens, Cursor.read, Cursor.start]
  cases Grammar.sourceFile tokens.list with
  | error fault => simp [Except.map]
  | ok r => exact ⟨fun h => ⟨r.2, by cases h; rfl⟩, fun ⟨_, h⟩ => by cases h; rfl⟩

theorem ofText_eq_ok {source : String} {file : SourceFile} :
    ofText source = .ok file ↔
      ∃ tokens, tokenize source = .ok tokens ∧ ofTokens tokens = .ok file := by
  unfold ofText
  cases tokenize source <;> simp [bind, Except.bind]

end Ferrotype.SourceFile
