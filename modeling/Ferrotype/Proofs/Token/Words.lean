import Ferrotype.Token.Basic

/-!
# Words on a line

Tokens that are written on one line, with a space between each two. A shift is written as one
word: it is two marks without a gap.
-/

namespace Ferrotype

def Position.right (n : Nat) (p : Position) : Position := { p with column := p.column + n }

/-- What stands between two spaces: a token, or one mark twice. -/
structure Word where
  kind : Kind
  text : String
  twice : Bool := false
  deriving Repr, DecidableEq

namespace Word

def mark (p : Punct) : Word := ⟨.punct p, p.text, false⟩

def keyword (k : Keyword) : Word := ⟨.keyword k, k.text, false⟩

def opener (d : Delim) : Word := ⟨.opener d, String.singleton d.openChar, false⟩

def closer (d : Delim) : Word := ⟨.closer d, String.singleton d.closeChar, false⟩

def shift (p : Punct) : Word := ⟨.punct p, p.text, true⟩

def token (w : Word) (p : Position) : Token := ⟨w.kind, w.text, p⟩

/-- The tokens of a word that starts at `p`. -/
def tokens (w : Word) (p : Position) : List Token :=
  w.token p :: if w.twice then [w.token (p.right w.text.length)] else []

def width (w : Word) : Nat := if w.twice then w.text.length + w.text.length else w.text.length

end Word

/-- The tokens of words on a line, from `p` on. -/
def layout (p : Position) : List Word → List Token
  | [] => []
  | w :: ws => w.tokens p ++ layout (p.right (w.width + 1)) ws

/-- Where the next word starts. -/
def behind (p : Position) (ws : List Word) : Position :=
  ws.foldl (fun p w => p.right (w.width + 1)) p

theorem layout_append (p : Position) (ws vs : List Word) :
    layout p (ws ++ vs) = layout p ws ++ layout (behind p ws) vs := by
  induction ws generalizing p with
  | nil => rfl
  | cons w ws ih => simp only [List.cons_append, layout, ih, behind, List.foldl_cons,
      List.append_assoc]

theorem layout_cons {w : Word} (h : w.twice = false) (p : Position) (ws : List Word) :
    layout p (w :: ws) = w.token p :: layout (p.right (w.width + 1)) ws := by
  simp [layout, Word.tokens, h]

/-- Words stay on their line. -/
theorem line_behind (p : Position) (ws : List Word) : (behind p ws).line = p.line := by
  induction ws generalizing p with
  | nil => rfl
  | cons w ws ih => exact (ih _).trans rfl

/-- Every word has a token. -/
theorem length_le_layout (p : Position) (ws : List Word) : ws.length ≤ (layout p ws).length := by
  induction ws generalizing p with
  | nil => exact Nat.le_refl _
  | cons w ws ih =>
    have := ih (p.right (w.width + 1))
    simp only [layout, Word.tokens, List.length_append, List.length_cons]
    omega

/-! ## Words anywhere -/

/-- The word that a token is. -/
def Token.word (t : Token) : Word := ⟨t.kind, t.text, false⟩

/-- The tokens are those of the words, wherever they stand. -/
def Spells (ws : List Word) (ts : List Token) : Prop := ts.map Token.word = ws

theorem spells_nil {ts : List Token} : Spells [] ts ↔ ts = [] := List.map_eq_nil_iff

/-- Words on a line, none of which is one mark twice. -/
theorem spells_layout {ws : List Word} (h : ∀ w ∈ ws, w.twice = false) (p : Position) :
    Spells ws (layout p ws) := by
  induction ws generalizing p with
  | nil => rfl
  | cons w ws ih =>
    rw [List.forall_mem_cons] at h
    have hw : (w.token p).word = w := by
      obtain ⟨kind, text, twice⟩ := w
      exact congrArg (Word.mk kind text) h.1.symm
    rw [Spells, layout_cons h.1, List.map_cons, hw]
    exact congrArg (w :: ·) (ih h.2 _)

theorem Spells.cons {w : Word} {ws : List Word} {ts : List Token} (h : Spells (w :: ws) ts) :
    ∃ p us, ts = w.token p :: us ∧ Spells ws us := by
  obtain ⟨t, us, rfl, rfl, hs⟩ := List.map_eq_cons_iff.1 h
  exact ⟨t.place, us, rfl, hs⟩

theorem Spells.append {ws vs : List Word} {ts : List Token} (h : Spells (ws ++ vs) ts) :
    ∃ us us', ts = us ++ us' ∧ Spells ws us ∧ Spells vs us' :=
  List.map_eq_append_iff.1 h

theorem Spells.single {w : Word} {ts : List Token} (h : Spells [w] ts) : ∃ p, ts = [w.token p] := by
  obtain ⟨p, us, rfl, hu⟩ := h.cons
  obtain rfl := spells_nil.1 hu
  exact ⟨p, rfl⟩

theorem Spells.snoc {w : Word} {ws : List Word} {ts : List Token} (h : Spells (ws ++ [w]) ts) :
    ∃ us p, ts = us ++ [w.token p] ∧ Spells ws us := by
  obtain ⟨us, vs, rfl, hu, hv⟩ := h.append
  obtain ⟨p, rfl⟩ := hv.single
  exact ⟨us, p, rfl, hu⟩

theorem Spells.length_eq {ws : List Word} {ts : List Token} (h : Spells ws ts) :
    ts.length = ws.length := by
  rw [← h, List.length_map]

/-! ## Lists -/

/-- Parts with a comma before each. -/
def commaBefore : List (List Word) → List Word
  | [] => []
  | ws :: wss => .mark .comma :: (ws ++ commaBefore wss)

/-- Parts with commas between them. -/
def commaBetween : List (List Word) → List Word
  | [] => []
  | ws :: wss => ws ++ commaBefore wss

theorem length_le_commaBefore {ws : List Word} {wss : List (List Word)} (h : ws ∈ wss) :
    ws.length ≤ (commaBefore wss).length := by
  induction wss with
  | nil => cases h
  | cons vs wss ih =>
    simp only [commaBefore, List.length_cons, List.length_append]
    rcases List.mem_cons.1 h with rfl | h
    · omega
    · have := ih h
      omega

theorem length_le_commaBetween {ws : List Word} {wss : List (List Word)} (h : ws ∈ wss) :
    ws.length ≤ (commaBetween wss).length := by
  cases wss with
  | nil => cases h
  | cons vs wss =>
    simp only [commaBetween, List.length_append]
    rcases List.mem_cons.1 h with rfl | h
    · exact Nat.le_add_right _ _
    · have := length_le_commaBefore h
      omega

end Ferrotype
