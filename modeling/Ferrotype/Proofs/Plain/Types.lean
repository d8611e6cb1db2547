import Ferrotype.Proofs.Grammar.TypeComplete
import Ferrotype.Proofs.Plain.Text

/-!
# Plain types are read

A plain type has the words of its tree, so it is read from them as any type is that can be written.
-/

namespace Ferrotype

/-- Tokens that may stand behind a type. -/
def Kind.followsType : Kind → Bool
  | .punct .comma | .punct .semicolon | .punct .gt | .closer _ => true
  | _ => false

/-! ## Words of trees -/

theorem moreSegmentWords_eq {ss : List Segment} (h : ss ≠ []) :
    moreSegmentWords ss = .mark .colonColon :: segmentWords ss := by
  obtain ⟨s, ss, rfl⟩ := List.exists_cons_of_ne_nil h
  rw [moreSegmentWords, segmentWords]

theorem pathWordOf_name (n : Name) : pathWordOf n.text = n.word := by
  rw [pathWordOf, n.wordKind]
  rfl

theorem segmentWords_scope (scope : List Name) (n : Name) (arguments : Arguments) :
    segmentWords (scope.map (fun n => .mk n.text .none) ++ [.mk n.text arguments]) =
      scopeWords scope ++ n.word :: arguments.words := by
  induction scope with
  | nil => simp [segmentWords, moreSegmentWords, Segment.words, pathWordOf_name, scopeWords]
  | cons m scope ih =>
    rw [List.map_cons, List.cons_append, segmentWords, moreSegmentWords_eq (by simp), ih,
      Segment.words, Arguments.words, pathWordOf_name]
    rfl

theorem PlainType.words_tree (t : PlainType) : t.tree.words = t.words := by
  have hlist (ts : List PlainType) (ih : ∀ t ∈ ts, t.tree.words = t.words) :
      typesWords (treesOfTypes ts) = wordsOfTypes ts := by
    rw [typesWords_eq, treesOfTypes_eq, wordsOfTypes_eq, List.map_map]
    exact List.map_congr_left ih
  induction t using PlainType.induct with
  | path scope name =>
    rw [tree, words, Ty.words, segmentWords_scope]
    rfl
  | generic scope name arguments ih =>
    have ha : argumentsWords ((treesOfTypes arguments).map .type) = wordsOfTypes arguments := by
      rw [argumentsWords_eq, List.map_map, ← hlist arguments ih, typesWords_eq]
      rfl
    rw [tree, words, Ty.words, segmentWords_scope, Arguments.words, ha]
    rfl
  | reference lifetime mutable t ih =>
    rw [tree, words, Ty.words, ih]
    cases lifetime <;> rfl
  | tuple ts ih =>
    have hl : (treesOfTypes ts).length = ts.length := by rw [treesOfTypes_eq, List.length_map]
    rw [tree, words, Ty.words, hlist ts ih, hl]
  | slice t ih => rw [tree, words, Ty.words, ih]

theorem outputLast_scope (scope : List Name) {s : Segment} :
    OutputLast (scope.map (fun n => .mk n.text .none) ++ [s]) := by
  refine ⟨by simp, fun s' hs => ?_⟩
  rw [List.dropLast_concat] at hs
  obtain ⟨n, -, rfl⟩ := List.mem_map.1 hs
  rfl

theorem plain_scope (scope : List Name) {s : Segment} (h : s.Plain) :
    ∀ s' ∈ scope.map (fun n => .mk n.text .none) ++ [s], s'.Plain := by
  rw [List.forall_mem_append, List.forall_mem_singleton]
  refine ⟨fun s' hs => ?_, h⟩
  obtain ⟨n, -, rfl⟩ := List.mem_map.1 hs
  exact .mk .none

theorem PlainType.plain_tree (t : PlainType) : t.tree.Plain := by
  have hlist (ts : List PlainType) (ih : ∀ t ∈ ts, t.tree.Plain) :
      ∀ t ∈ treesOfTypes ts, t.Plain := by
    rw [treesOfTypes_eq]
    simpa using ih
  induction t using PlainType.induct with
  | path scope name => exact .path (plain_scope scope (.mk .none)) (outputLast_scope scope)
  | generic scope name arguments ih =>
    refine .path (plain_scope scope (.mk (.angle fun a ha => ?_))) (outputLast_scope scope)
    obtain ⟨t, ht, rfl⟩ := List.mem_map.1 ha
    exact .type (hlist arguments ih t ht)
  | reference lifetime mutable t ih => exact .reference ih
  | tuple ts ih => exact .tuple (hlist ts ih)
  | slice t ih => exact .slice ih

namespace Grammar

open Rule

variable {ts rest : List Token}

/-! ## Behind types -/

def TypeEnd (ts : List Token) : Prop := ∃ t us, ts = t :: us ∧ t.kind.followsType = true

theorem TypeEnd.headIs (h : TypeEnd ts) {kind : Kind} (hk : kind.followsType = false) :
    headIs kind ts = false := by
  obtain ⟨t, us, rfl, ht⟩ := h
  exact headIs_apart Kind.followsType (by simp [ht, hk]) us

theorem TypeEnd.typeDone (h : TypeEnd ts) : TypeDone ts := by
  obtain ⟨t, us, rfl, ht⟩ := h
  change t.kind.extendsType = false
  unfold Kind.followsType at ht
  split at ht
  case h_5 => cases ht
  all_goals
    next hk =>
      rw [hk]
      rfl

theorem TypeEnd.comma (p : Position) (ts : List Token) :
    TypeEnd ((Word.mark .comma).token p :: ts) := ⟨_, _, rfl, rfl⟩

theorem TypeEnd.closer (d : Delim) (p : Position) (ts : List Token) :
    TypeEnd ((Word.closer d).token p :: ts) := ⟨_, _, rfl, rfl⟩

/-- A type of the whole grammar. -/
theorem wholeType_reads (t : PlainType) (allowPlus : Bool) (p : Position) (hr : TypeEnd rest) :
    wholeType allowPlus (layout p t.words ++ rest) = .ok (t.tree, rest) := by
  have hs : Spells t.tree.words (layout p t.words) := by
    rw [t.words_tree]
    exact spells_layout (fun w hw => (t.legible w hw).once) p
  exact wholeType_written t.plain_tree hs hr.typeDone allowPlus

end Grammar

end Ferrotype
