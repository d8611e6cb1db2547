import Ferrotype.Proofs.Plain.Syntax
import Ferrotype.Proofs.Token.Number

/-!
# Plain declarations as texts

The tokens of a source text of plain declarations are those of its words.
-/

namespace Ferrotype

/-! ## Words of names -/

theorem Name.wordKind (n : Name) : wordKind n.text.toList = .identifier := by
  have hu : n.text.toList ≠ ['_'] := fun h => n.bare (String.toList_inj.1 h)
  have hk : Keyword.ofText? n.text = none := by
    refine List.find?_eq_none.2 fun k _ => ?_
    simpa using n.free k
  rw [Ferrotype.wordKind, if_neg hu, String.ofList_toList, hk]

theorem Name.legible (n : Name) : n.word.Legible := by
  have h := legible_word n.ascii
  rwa [n.wordKind] at h

theorem legible_scope (scope : List Name) : ∀ w ∈ scopeWords scope, w.Legible := by
  intro w hw
  obtain ⟨n, -, hw⟩ := List.mem_flatMap.1 hw
  simp only [List.mem_cons, List.not_mem_nil, or_false] at hw
  rcases hw with rfl | rfl
  · exact n.legible
  · exact legible_mark (by decide)

/-! ## Lists -/

theorem legible_before {wss : List (List Word)} (h : ∀ ws ∈ wss, ∀ w ∈ ws, w.Legible) :
    ∀ w ∈ commaBefore wss, w.Legible := by
  induction wss with
  | nil => nofun
  | cons ws wss ih =>
    rw [List.forall_mem_cons] at h
    rw [commaBefore, List.forall_mem_cons, List.forall_mem_append]
    exact ⟨legible_mark (by decide), h.1, ih h.2⟩

theorem legible_between {wss : List (List Word)} (h : ∀ ws ∈ wss, ∀ w ∈ ws, w.Legible) :
    ∀ w ∈ commaBetween wss, w.Legible := by
  cases wss with
  | nil => nofun
  | cons ws wss =>
    rw [List.forall_mem_cons] at h
    exact List.forall_mem_append.2 ⟨h.1, legible_before h.2⟩

/-! ## Types and items -/

theorem PlainType.legible (t : PlainType) : ∀ w ∈ t.words, w.Legible := by
  have hlist (ts : List PlainType) (ih : ∀ t ∈ ts, ∀ w ∈ t.words, w.Legible) :
      ∀ w ∈ commaBetween (wordsOfTypes ts), w.Legible := by
    refine legible_between ?_
    rw [wordsOfTypes_eq]
    simpa using ih
  induction t using PlainType.induct with
  | path scope name =>
    rw [words, List.forall_mem_append, List.forall_mem_singleton]
    exact ⟨legible_scope scope, name.legible⟩
  | generic scope name arguments ih =>
    simp only [words, List.forall_mem_append, List.forall_mem_cons, List.not_mem_nil, false_implies,
      implies_true, and_true]
    exact ⟨legible_scope scope, name.legible, legible_mark (by decide), hlist arguments ih,
      legible_mark (by decide)⟩
  | reference lifetime mutable t ih =>
    simp only [words, List.forall_mem_append, List.forall_mem_cons]
    refine ⟨legible_mark (by decide), fun w hw => ?_, fun w hw => ?_, ih⟩
    · obtain ⟨l, -, rfl⟩ := List.mem_map.1 hw
      exact legible_lifetime l.ascii
    · cases mutable with
      | true => exact List.mem_singleton.1 hw ▸ legible_keyword _
      | false => cases hw
  | tuple ts ih =>
    simp only [words, List.forall_mem_append, List.forall_mem_cons, List.not_mem_nil, false_implies,
      implies_true, and_true]
    refine ⟨legible_opener _, hlist ts ih, fun w hw => ?_, legible_closer _⟩
    split at hw
    · exact List.mem_singleton.1 hw ▸ legible_mark (by decide)
    · cases hw
  | slice t ih =>
    simp only [words, List.forall_mem_append, List.forall_mem_cons, List.not_mem_nil, false_implies,
      implies_true, and_true]
    exact ⟨legible_opener _, ih, legible_closer _⟩

theorem PlainField.legible (f : PlainField) : ∀ w ∈ f.words, w.Legible := by
  simp only [words, List.forall_mem_cons]
  exact ⟨f.name.legible, legible_mark (by decide), f.type.legible⟩

theorem PlainValue.legible (v : PlainValue) : v.word.Legible := by
  cases v with
  | number d =>
    rw [word, ← d.text_integer]
    exact d.integer.legible rfl rfl
  | symbol n => exact n.legible

theorem PlainVariant.legible (v : PlainVariant) : ∀ w ∈ v.words, w.Legible := by
  obtain ⟨name, value⟩ := v
  cases value with
  | none => exact List.forall_mem_singleton.2 name.legible
  | some value =>
    simp only [words, Option.elim, List.forall_mem_cons, List.not_mem_nil, false_implies,
      implies_true, and_true]
    exact ⟨name.legible, legible_mark (by decide), value.legible⟩

theorem PlainMethod.legible (m : PlainMethod) : ∀ w ∈ m.words, w.Legible := by
  simp only [words, signatureWords, List.forall_mem_append, List.forall_mem_cons,
    List.not_mem_nil, false_implies, implies_true, and_true]
  refine ⟨⟨legible_keyword _, m.name.legible, legible_opener _, legible_between ?_,
    legible_closer _, fun w hw => ?_⟩, legible_mark (by decide)⟩
  · simp only [List.forall_mem_cons, List.not_mem_nil, false_implies, implies_true, and_true,
      List.forall_mem_map]
    exact ⟨⟨legible_mark (by decide), legible_keyword _⟩, fun p _ => p.legible⟩
  · cases hr : m.result with
    | none =>
      rw [hr] at hw
      cases hw
    | some t =>
      rw [hr] at hw
      rcases List.mem_cons.1 hw with rfl | hw
      · exact legible_mark (by decide)
      · exact t.legible w hw

theorem legible_block (k : Keyword) (name : Name) {ws : List Word} (h : ∀ w ∈ ws, w.Legible) :
    ∀ w ∈ Word.keyword k :: name.word :: .opener .brace :: (ws ++ [.closer .brace]),
      w.Legible := by
  simp only [List.forall_mem_append, List.forall_mem_cons, List.not_mem_nil, false_implies,
    implies_true, and_true]
  exact ⟨legible_keyword _, name.legible, legible_opener _, h, legible_closer _⟩

theorem PlainItem.legible (i : PlainItem) : ∀ w ∈ i.words, w.Legible := by
  cases i with
  | struct name fields =>
    refine legible_block _ name (legible_between ?_)
    exact List.forall_mem_map.2 fun f _ => f.legible
  | enumeration name variants =>
    refine legible_block _ name (legible_between ?_)
    exact List.forall_mem_map.2 fun v _ => v.legible
  | trait name methods =>
    refine legible_block _ name fun w hw => ?_
    obtain ⟨m, -, hw⟩ := List.mem_flatMap.1 hw
    exact m.legible w hw

/-! ## Texts -/

/-- A keyword starts each item. -/
theorem PlainItem.first (i : PlainItem) : ∃ k ws, i.words = .keyword k :: ws := by
  cases i <;> exact ⟨_, _, rfl⟩

/-- A text that starts with a keyword has no interpreter line. -/
theorem shebang_spaced (k : Keyword) (ws : List Word) :
    shebang (spaced (.keyword k :: ws)).toList = [] := by
  obtain ⟨u, hu⟩ : ∃ u, (spaced (.keyword k :: ws)).toList = k.text.toList ++ u := by
    rw [spaced, List.map_cons]
    cases h : ws.map Word.text with
    | nil => exact ⟨[], by simp [Word.keyword]⟩
    | cons t ts =>
      exact ⟨' ' :: [' '].intercalate ((t :: ts).map String.toList), by simp [Word.keyword]⟩
  have hk : k.text.toList.head? ≠ some '#' ∧ k.text.toList ≠ [] := by cases k <;> decide
  rw [hu]
  unfold shebang
  split
  · next t h =>
    cases hl : k.text.toList with
    | nil => exact absurd hl hk.2
    | cons c s => simp_all
  · rfl

theorem tokenize_spaced {ws : List Word} (hl : ∀ w ∈ ws, w.Legible)
    (hs : shebang (spaced ws).toList = []) :
    ∃ finish, tokenize (spaced ws) = .ok ⟨layout .start ws, finish⟩ := by
  refine ⟨_, tokenize_eq_ok.2 ⟨?_, rfl⟩⟩
  rw [hs]
  exact tokensFrom_spaced hl .start

theorem shebang_sourceOf (items : List PlainItem) : shebang (sourceOf items).toList = [] := by
  cases items with
  | nil => rfl
  | cons i items =>
    obtain ⟨k, ws, hw⟩ := i.first
    rw [sourceOf, List.flatMap_cons, hw, List.cons_append]
    exact shebang_spaced k _

theorem tokenize_sourceOf (items : List PlainItem) :
    ∃ finish, tokenize (sourceOf items) =
      .ok ⟨layout .start (items.flatMap PlainItem.words), finish⟩ := by
  refine tokenize_spaced (fun w hw => ?_) (shebang_sourceOf items)
  obtain ⟨i, -, hw⟩ := List.mem_flatMap.1 hw
  exact i.legible w hw

end Ferrotype
