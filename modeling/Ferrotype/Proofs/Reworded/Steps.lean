import Ferrotype.Proofs.Grammar.Nesting
import Ferrotype.Proofs.Halting.Steps
import Ferrotype.Proofs.Reworded.Trees

/-!
# Runs of rules on reworded tokens

Two lists of tokens that differ in the texts of comments only are read in step: the rules take the
same turns, so both runs end in a fault of the same place, or both find trees that are alike. There
is a lemma for each kind of step, and the rules of the grammar are sequences of steps.
-/

namespace Ferrotype

variable {α α' β β' γ γ' δ δ' : Type}

/--
Tokens that may stand for each other: all but the text of a comment is the same, and an operator
only stands for itself. `T` is what is known of the texts.
-/
structure Rewording (E : Token → Token → Prop) (T : String → String → Prop) : Prop where
  kind {t u : Token} (h : E t u) : t.kind = u.kind
  place {t u : Token} (h : E t u) : t.place = u.place
  text {t u : Token} (h : E t u) : T t.text u.text
  word {t u : Token} (h : E t u) (hk : ∀ style, t.kind ≠ .doc style) : t.text = u.text
  operator {t u : Token} (h : E t u) : BinaryOp.ofText? t.text = BinaryOp.ofText? u.text
  empty : T "" ""

/-- Two runs that end alike: with results that `P` relates, or with a fault of the same token. -/
inductive RunsAlike (E : Token → Token → Prop) (P : α → β → Prop) :
    Except GrammarFault (α × List Token) → Except GrammarFault (β × List Token) → Prop where
  | ok {a : α} {b : β} {ts us : List Token} (ha : P a b) (hr : List.Forall₂ E ts us) :
    RunsAlike E P (.ok (a, ts)) (.ok (b, us))
  | error {f g : GrammarFault} (h : Option.Rel E f.token? g.token?) :
    RunsAlike E P (.error f) (.error g)

inductive Turn.Alike (P : α → β → Prop) : Turn α → Turn β → Prop where
  | stop : Turn.Alike P .stop .stop
  | last {a : α} {b : β} (h : P a b) : Turn.Alike P (.last a) (.last b)
  | more {a : α} {b : β} (h : P a b) : Turn.Alike P (.more a) (.more b)

/-- The runs of `x` on `ts` and of `y` on `us` end alike. -/
def Rule.Agree (E : Token → Token → Prop) (x : Rule α) (y : Rule β) (P : α → β → Prop)
    (ts us : List Token) : Prop := RunsAlike E P (x ts) (y us)

variable {E : Token → Token → Prop} {T : String → String → Prop} {ts us : List Token}

/-! ## Lists of tokens -/

namespace Rewording

variable (w : Rewording E T) (h : List.Forall₂ E ts us)
include w h

theorem kinds : ts.map Token.kind = us.map Token.kind := by
  induction h with
  | nil => rfl
  | cons hd _ ih => rw [List.map_cons, List.map_cons, w.kind hd, ih]

theorem kind_getElem? (i : Nat) : ts[i]?.map Token.kind = us[i]?.map Token.kind := by
  rw [← List.getElem?_map, ← List.getElem?_map, w.kinds h]

theorem any_head? (p : Kind → Bool) :
    (ts.head?.any fun t => p t.kind) = us.head?.any fun t => p t.kind := by
  cases h with
  | nil => rfl
  | cons hd _ =>
    rw [List.head?_cons, List.head?_cons, Option.any_some, Option.any_some, w.kind hd]

theorem headIs (kind : Kind) : Grammar.headIs kind ts = Grammar.headIs kind us :=
  w.any_head? h (· == kind)

theorem joined : Joined T (Rule.textOf ts) (Rule.textOf us) := by
  refine ⟨ts.map Token.text, us.map Token.text, ?_, rfl, rfl⟩
  induction h with
  | nil => exact .nil
  | cons hd _ ih => exact .cons (w.text hd) ih

end Rewording

theorem forall₂_head? (h : List.Forall₂ E ts us) : Option.Rel E ts.head? us.head? := by
  cases h with
  | nil => exact .none
  | cons hd _ => exact .some hd

theorem forall₂_tail (h : List.Forall₂ E ts us) : List.Forall₂ E ts.tail us.tail := by
  cases h with
  | nil => exact .nil
  | cons _ h => exact h

theorem joined_nil : Joined T "" "" := ⟨[], [], .nil, rfl, rfl⟩

/-- Lists that are the same, element for element. -/
theorem eq_of_forall₂_eq {as bs : List α} (h : List.Forall₂ Eq as bs) : as = bs := by
  rwa [List.forall₂_eq_eq_eq] at h

namespace Rule.Agree

variable {x : Rule α} {y : Rule α'} {f : α → Rule β} {g : α' → Rule β'} {P : α → α' → Prop}
  {Q : β → β' → Prop}

/-! ## Sequences -/

theorem pure {a : α} {b : α'} (ha : P a b) (h : List.Forall₂ E ts us) :
    Agree E (Pure.pure a) (Pure.pure b) P ts us := RunsAlike.ok ha h

theorem throw {f g : GrammarFault} (h : Option.Rel E f.token? g.token?) :
    Agree E (MonadExcept.throw f : Rule α) (MonadExcept.throw g : Rule α') P ts us :=
  RunsAlike.error h

theorem refuse {what : Expectation} {note : String} (h : List.Forall₂ E ts us) :
    Agree E (Rule.refuse what note : Rule α) (Rule.refuse what note : Rule α') P ts us :=
  RunsAlike.error (forall₂_head? h)

theorem mono {P' : α → α' → Prop} (hx : Agree E x y P ts us) (hp : ∀ a b, P a b → P' a b) :
    Agree E x y P' ts us := by
  unfold Agree at hx ⊢
  generalize x ts = r at hx ⊢
  generalize y us = s at hx ⊢
  cases hx with
  | ok ha hr => exact .ok (hp _ _ ha) hr
  | error hf => exact .error hf

theorem bind (hx : Agree E x y P ts us)
    (hf : ∀ a b ts us, P a b → List.Forall₂ E ts us → Agree E (f a) (g b) Q ts us) :
    Agree E (x >>= f) (y >>= g) Q ts us := by
  unfold Agree at hx ⊢
  generalize hr : x ts = r at hx
  generalize hs : y us = s at hx
  cases hx with
  | ok ha h =>
    rw [bind_ok hr, bind_ok hs]
    exact hf _ _ _ _ ha h
  | error h =>
    rw [bind_error hr, bind_error hs]
    exact .error h

/-- A step of which both runs find the same. -/
theorem bindEq {y : Rule α} {g : α → Rule β'} (hx : Agree E x y Eq ts us)
    (hf : ∀ a ts us, List.Forall₂ E ts us → Agree E (f a) (g a) Q ts us) :
    Agree E (x >>= f) (y >>= g) Q ts us := by
  apply bind hx
  rintro a _ ts us rfl h
  exact hf a ts us h

theorem discard (hx : Agree E x y P ts us) :
    Agree E (Functor.discard x) (Functor.discard y) Eq ts us :=
  bind hx fun _ _ _ _ _ h => pure rfl h

/-- A step of which the result is not used. -/
theorem skip {f : PUnit → Rule β} {g : PUnit → Rule β'} (hx : Agree E x y P ts us)
    (hf : ∀ ts us, List.Forall₂ E ts us → Agree E (f ⟨⟩) (g ⟨⟩) Q ts us) :
    Agree E (Functor.discard x >>= f) (Functor.discard y >>= g) Q ts us :=
  bindEq hx.discard fun _ => hf

theorem ite {c : Prop} [Decidable c] {x' : Rule α} {y' : Rule α'} (hx : c → Agree E x y P ts us)
    (hy : ¬c → Agree E x' y' P ts us) :
    Agree E (if c then x else x') (if c then y else y') P ts us := by
  split
  · next hc => exact hx hc
  · next hc => exact hy hc

/-- A step that may be left out. -/
theorem opt {c : Prop} [Decidable c] {z : Rule γ} {z' : Rule γ'} {R : γ → γ' → Prop}
    (h : List.Forall₂ E ts us) (hz : c → Agree E z z' R ts us)
    (hx : ∀ ts us, List.Forall₂ E ts us → Agree E x y P ts us) :
    Agree E (if c then z >>= fun _ => x else x) (if c then z' >>= fun _ => y else y) P ts us := by
  apply ite
  · intro hc
    apply bind (hz hc)
    intro _ _ ts us _ h
    exact hx ts us h
  · intro _
    exact hx ts us h

/-- Two steps that may be left out together. -/
theorem opt₂ {c : Prop} [Decidable c] {u : Rule γ} {u' : Rule γ'} {z : Rule δ} {z' : Rule δ'}
    {R : δ → δ' → Prop} (h : List.Forall₂ E ts us)
    (hz : c → Agree E (u >>= fun _ => z) (u' >>= fun _ => z') R ts us)
    (hx : ∀ ts us, List.Forall₂ E ts us → Agree E x y P ts us) :
    Agree E (if c then u >>= fun _ => z >>= fun _ => x else x)
      (if c then u' >>= fun _ => z' >>= fun _ => y else y) P ts us := by
  simp only [← bind_assoc]
  exact opt h hz hx

/-- The steps behind a branch, which each arm of it takes, are looked at once. -/
theorem join {p : Prop} {f : γ → Rule β} {g : γ' → Rule β'} {R : γ → γ' → Prop}
    (hx : (∀ c d ts us, R c d → List.Forall₂ E ts us → Agree E (f c) (g d) Q ts us) → p)
    (hf : ∀ c d ts us, R c d → List.Forall₂ E ts us → Agree E (f c) (g d) Q ts us) : p := hx hf

/-- An arm that reads nothing. -/
theorem pureThen {f : γ → Rule β} {g : γ' → Rule β'} {R : γ → γ' → Prop} {c : γ} {d : γ'}
    (hf : ∀ c d ts us, R c d → List.Forall₂ E ts us → Agree E (f c) (g d) Q ts us) (hr : R c d)
    (h : List.Forall₂ E ts us) : Agree E (Pure.pure c >>= f) (Pure.pure d >>= g) Q ts us :=
  hf c d ts us hr h

/-! ## Looking ahead -/

theorem look {a : α} {b : α'} (hx : x ts = .ok (a, ts)) (hy : y us = .ok (b, us))
    (hf : Agree E (f a) (g b) Q ts us) : Agree E (x >>= f) (y >>= g) Q ts us := by
  unfold Agree
  rwa [bind_ok hx, bind_ok hy]

theorem get {f : List Token → Rule β} {g : List Token → Rule β'}
    (hf : Agree E (f ts) (g us) Q ts us) :
    Agree E (MonadState.get >>= f) (MonadState.get >>= g) Q ts us := look rfl rfl hf

theorem set {us' ts' : List Token} {f : PUnit → Rule β} {g : PUnit → Rule β'}
    (hf : Agree E (f ⟨⟩) (g ⟨⟩) Q ts' us') :
    Agree E (MonadStateOf.set ts' >>= f) (MonadStateOf.set us' >>= g) Q ts us := hf

theorem drop {k : Nat} {f : PUnit → Rule β} {g : PUnit → Rule β'}
    (hf : Agree E (f ⟨⟩) (g ⟨⟩) Q (ts.drop k) (us.drop k)) :
    Agree E (modify (List.drop k) >>= f) (modify (List.drop k) >>= g) Q ts us := hf

/-! ### With what is known of reworded tokens -/

section

variable (w : Rewording E T) (h : List.Forall₂ E ts us)
include w h

theorem kindAt {i : Nat} {f : Option Kind → Rule β} {g : Option Kind → Rule β'}
    (hf : Agree E (f (ts[i]?.map Token.kind)) (g (ts[i]?.map Token.kind)) Q ts us) :
    Agree E (Rule.kindAt i >>= f) (Rule.kindAt i >>= g) Q ts us := by
  apply look rfl rfl
  rwa [← w.kind_getElem? h]

theorem nextIs {p : Kind → Bool} {f : Bool → Rule β} {g : Bool → Rule β'}
    (hf : Agree E (f (ts.head?.any fun t => p t.kind)) (g (ts.head?.any fun t => p t.kind)) Q ts us) :
    Agree E (Rule.nextIs p >>= f) (Rule.nextIs p >>= g) Q ts us := by
  apply look (run_nextIs.2 ⟨rfl, rfl⟩) (run_nextIs.2 ⟨rfl, rfl⟩)
  rwa [← w.any_head? h]

theorem isAt {kind : Kind} {f : Bool → Rule β} {g : Bool → Rule β'}
    (hf : Agree E (f (Grammar.headIs kind ts)) (g (Grammar.headIs kind ts)) Q ts us) :
    Agree E (Rule.isAt kind >>= f) (Rule.isAt kind >>= g) Q ts us := nextIs w h hf

omit w h in
/-- A test that both lists pass, or neither. -/
theorem ahead {test : List Token → Bool} {f : Bool → Rule β} {g : Bool → Rule β'}
    (ht : test ts = test us) (hf : Agree E (f (test ts)) (g (test ts)) Q ts us) :
    Agree E (Rule.ahead test >>= f) (Rule.ahead test >>= g) Q ts us := by
  apply look rfl rfl
  rwa [← ht]

theorem nextLine {f : Nat → Rule β} {g : Nat → Rule β'}
    (hf : ∀ line, Agree E (f line) (g line) Q ts us) :
    Agree E (Grammar.nextLine >>= f) (Grammar.nextLine >>= g) Q ts us := by
  apply look rfl rfl
  cases h with
  | nil => exact hf 0
  | cons hd _ =>
    have hp := w.place hd
    simp only [List.head?_cons, Option.elim_some, hp]
    exact hf _

/-- The text of the next token is the same unless that is a comment. -/
theorem nextText {f : String → Rule β} {g : String → Rule β'}
    (hf : ∀ x y, T x y → ((∀ style, Grammar.headIs (.doc style) ts = false) → x = y) →
      Agree E (f x) (g y) Q ts us) :
    Agree E (Rule.nextText >>= f) (Rule.nextText >>= g) Q ts us := by
  apply look rfl rfl
  cases h with
  | nil => exact hf _ _ w.empty fun _ => rfl
  | cons hd _ =>
    refine hf _ _ (w.text hd) fun hk => w.word hd fun style hs => ?_
    have := hk style
    simp [Grammar.headIs, hs] at this

theorem nextWord {p : Kind → Bool} (hp : ∀ style, p (.doc style) = false)
    (hh : (ts.head?.any fun t => p t.kind) = true) {f : String → Rule β} {g : String → Rule β'}
    (hf : ∀ x, Agree E (f x) (g x) Q ts us) :
    Agree E (Rule.nextText >>= f) (Rule.nextText >>= g) Q ts us := by
  apply nextText w h
  intro x y _ hxy
  obtain rfl : x = y := by
    apply hxy
    intro style
    cases ts with
    | nil => rfl
    | cons t ts =>
      have hs : t.kind ≠ .doc style := by
        intro hk
        rw [List.head?_cons, Option.any_some, hk, hp] at hh
        cases hh
      simpa [Grammar.headIs] using hs
  exact hf x

/-! ## Reading -/

omit w in
theorem advance : Agree E Rule.advance Rule.advance (Option.Rel E) ts us := by
  cases h with
  | nil => exact RunsAlike.ok .none .nil
  | cons hd htl => exact RunsAlike.ok (.some hd) htl

omit w h in
/-- Behind the next token stands the rest of both lists. -/
theorem tail {f : PUnit → Rule β} {g : PUnit → Rule β'}
    (hf : Agree E (f ⟨⟩) (g ⟨⟩) Q ts.tail us.tail) :
    Agree E (Functor.discard Rule.advance >>= f) (Functor.discard Rule.advance >>= g) Q ts us := by
  have hd (vs : List Token) :
      (Functor.discard Rule.advance : Rule PUnit) vs = .ok (⟨⟩, vs.tail) :=
    run_discard.2 ⟨_, run_advance.2 ⟨rfl, rfl⟩⟩
  unfold Agree
  rwa [bind_ok (hd ts), bind_ok (hd us)]

theorem accept {kind : Kind} : Agree E (Rule.accept kind) (Rule.accept kind) Eq ts us := by
  apply isAt w h
  apply ite
  · intro _
    exact skip (advance h) fun _ _ h => pure rfl h
  · intro _
    exact pure rfl h

/-- The two ways on from a token that may be there. -/
theorem acceptIte {kind : Kind} {x x' : Rule β} {y y' : Rule β'}
    (hx : ∀ ts us, List.Forall₂ E ts us → Agree E x y Q ts us) (hx' : Agree E x' y' Q ts us) :
    Agree E (Rule.accept kind >>= fun b => if b = true then x else x')
      (Rule.accept kind >>= fun b => if b = true then y else y') Q ts us := by
  cases hk : Grammar.headIs kind ts with
  | false =>
    have hk' := hk
    rw [w.headIs h] at hk'
    exact look (accept_eq_false hk) (accept_eq_false hk') hx'
  | true =>
    cases h with
    | nil => cases hk
    | @cons t u ts us hd htl =>
      have ht : t.kind = kind := beq_iff_eq.1 hk
      have hu : u.kind = kind := by rw [← w.kind hd, ht]
      unfold Agree
      rw [bind_ok (accept_eq_true ht), bind_ok (accept_eq_true hu)]
      exact hx ts us htl

theorem expect {kind : Kind} {note : String} :
    Agree E (Rule.expect kind note) (Rule.expect kind note) (fun t u => E t u ∧ t.kind = kind)
      ts us := by
  cases h with
  | nil => exact RunsAlike.error .none
  | @cons t u ts us hd htl =>
    have hk := w.kind hd
    change Agree E
      (if t.kind = kind then (do MonadStateOf.set ts; Pure.pure t) else MonadExcept.throw _)
      (if u.kind = kind then (do MonadStateOf.set us; Pure.pure u) else MonadExcept.throw _) _ _ _
    rw [← hk]
    apply ite
    · intro ht
      exact set (pure ⟨hd, ht⟩ htl)
    · intro _
      exact throw (.some hd)

/-- The token is not looked at again. -/
theorem expectOver {kind : Kind} {note : String} {f : PUnit → Rule β} {g : PUnit → Rule β'}
    (hf : ∀ ts us, List.Forall₂ E ts us → Agree E (f ⟨⟩) (g ⟨⟩) Q ts us) :
    Agree E (Functor.discard (Rule.expect kind note) >>= f)
      (Functor.discard (Rule.expect kind note) >>= g) Q ts us := skip (expect w h) hf

theorem expectName : Agree E Rule.expectName Rule.expectName Eq ts us := by
  apply bind (expect w h)
  rintro t u ts us ⟨hd, hk⟩ h
  apply pure _ h
  apply w.word hd
  simp [hk]

end

end Rule.Agree

/-! ## Reading over -/

/-- As `RunsAlike`, of what only reads over tokens. -/
inductive RestsAlike (E : Token → Token → Prop) :
    Except GrammarFault (List Token) → Except GrammarFault (List Token) → Prop where
  | ok {ts us : List Token} (h : List.Forall₂ E ts us) : RestsAlike E (.ok ts) (.ok us)
  | error {f g : GrammarFault} (h : Option.Rel E f.token? g.token?) :
    RestsAlike E (.error f) (.error g)

theorem RestsAlike.bind {r s : Except GrammarFault (List Token)}
    {f g : List Token → Except GrammarFault (List Token)} (hr : RestsAlike E r s)
    (hf : ∀ ts us, r = .ok ts → List.Forall₂ E ts us → RestsAlike E (f ts) (g us)) :
    RestsAlike E (r >>= f) (s >>= g) := by
  cases hr with
  | ok h => exact hf _ _ rfl h
  | error h => exact .error h

namespace Grammar

theorem dropTreesUntil_cons (stop : Kind → Bool) (t : Token) (ts : List Token) :
    dropTreesUntil stop (t :: ts) =
      if stop t.kind then .ok (t :: ts) else dropTree (t :: ts) >>= dropTreesUntil stop := by
  rw [dropTreesUntil]
  split
  · rfl
  · split
    · next hd => rw [hd]; rfl
    · next hd => rw [hd]; rfl

theorem dropParameterRest_cons (depth : Nat) (t : Token) (ts : List Token) :
    dropParameterRest depth (t :: ts) =
      if depth = 0 ∧ (t.kind = .punct .comma ∨ t.kind = .punct .gt) then .ok (t :: ts)
      else if t.kind = .punct .lt then dropParameterRest (depth + 1) ts
      else if t.kind = .punct .gt then dropParameterRest (depth - 1) ts
      else dropTree (t :: ts) >>= dropParameterRest depth := by
  rw [dropParameterRest]
  repeat' split
  any_goals rfl
  · next hd => rw [hd]; rfl
  · next hd => rw [hd]; rfl

variable (w : Rewording E T) (h : List.Forall₂ E ts us)
include w h

theorem closeGroup_alike {os ps : List Token} (ho : List.Forall₂ E os ps) :
    RestsAlike E (closeGroup os ts) (closeGroup ps us) := by
  induction h generalizing os ps with
  | nil =>
    cases ho with
    | nil => exact .ok .nil
    | cons hd _ => exact .error (.some hd)
  | @cons t u ts us hd htl ih =>
    cases ho with
    | nil => exact .ok (.cons hd htl)
    | @cons o p os ps hop ho =>
      simp only [closeGroup, ← w.kind hd, ← w.kind hop]
      split
      · exact ih (.cons hd (.cons hop ho))
      · split
        · exact ih ho
        · exact .error (.some hd)
      · exact ih (.cons hop ho)

theorem dropTree_alike : RestsAlike E (dropTree ts) (dropTree us) := by
  cases h with
  | nil => exact .error .none
  | @cons t u ts us hd htl =>
    simp only [dropTree, ← w.kind hd]
    split
    · exact .error (.some hd)
    · exact closeGroup_alike w htl (.cons hd .nil)
    · exact .ok htl

/-- Both lists go on behind a tree, and the first one gets shorter. -/
theorem dropTreesUntil_alike (stop : Kind → Bool) :
    RestsAlike E (dropTreesUntil stop ts) (dropTreesUntil stop us) := by
  induction hn : ts.length using Nat.strongRecOn generalizing ts us with
  | ind n ih =>
  subst hn
  cases h with
  | nil =>
    rw [dropTreesUntil]
    exact .error .none
  | @cons t u ts us hd htl =>
    rw [dropTreesUntil_cons, dropTreesUntil_cons, ← w.kind hd]
    split
    · exact .ok (.cons hd htl)
    · apply (dropTree_alike w (.cons hd htl)).bind
      intro ts' us' hr h
      exact ih ts'.length (dropTree_length hr) h rfl

theorem dropParameterRest_alike (depth : Nat) :
    RestsAlike E (dropParameterRest depth ts) (dropParameterRest depth us) := by
  induction hn : ts.length using Nat.strongRecOn generalizing depth ts us with
  | ind n ih =>
  subst hn
  cases h with
  | nil =>
    rw [dropParameterRest]
    exact .error .none
  | @cons t u ts us hd htl =>
    have hl : ts.length < (t :: ts).length := Nat.lt_succ_self _
    rw [dropParameterRest_cons, dropParameterRest_cons, ← w.kind hd]
    split
    · exact .ok (.cons hd htl)
    split
    · exact ih _ hl htl _ rfl
    split
    · exact ih _ hl htl _ rfl
    · apply (dropTree_alike w (.cons hd htl)).bind
      intro ts' us' hr h
      exact ih ts'.length (dropTree_length hr) h _ rfl

end Grammar

namespace Rule.Agree

variable {P : α → α' → Prop} {x : Rule α} {y : Rule α'}

theorem dropping_error {drop : List Token → Except GrammarFault (List Token)} {f : GrammarFault}
    (hd : drop ts = .error f) : Rule.dropping drop ts = .error f := by
  have hl : (liftM (drop ts) : Rule (List Token)) ts = .error f := by
    rw [hd]
    rfl
  exact bind_error hl _

theorem dropping {drop : List Token → Except GrammarFault (List Token)}
    (hd : RestsAlike E (drop ts) (drop us)) :
    Agree E (Rule.dropping drop) (Rule.dropping drop) Eq ts us := by
  unfold Agree
  generalize hr : drop ts = r at hd
  generalize hs : drop us = s at hd
  cases hd with
  | ok h =>
    rw [run_dropping (u := ()).2 hr, run_dropping (u := ()).2 hs]
    exact .ok rfl h
  | error h =>
    rw [dropping_error hr, dropping_error hs]
    exact .error h

variable (w : Rewording E T) (h : List.Forall₂ E ts us)
include w h

theorem skipTree : Agree E Rule.skipTree Rule.skipTree Eq ts us :=
  dropping (Grammar.dropTree_alike w h)

theorem skipTo {stop : Kind → Bool} : Agree E (Rule.skipTo stop) (Rule.skipTo stop) Eq ts us :=
  dropping (Grammar.dropTreesUntil_alike w h stop)

theorem parameterRest : Agree E (Rule.dropping (Grammar.dropParameterRest 0))
    (Rule.dropping (Grammar.dropParameterRest 0)) Eq ts us :=
  dropping (Grammar.dropParameterRest_alike w h 0)

theorem skipToSemicolon : Agree E Rule.skipToSemicolon Rule.skipToSemicolon Eq ts us := by
  apply bindEq (skipTo w h)
  intro _ ts us h
  exact discard (advance h)

theorem skipToBlockOrSemicolon :
    Agree E Rule.skipToBlockOrSemicolon Rule.skipToBlockOrSemicolon Eq ts us := by
  apply bindEq (skipTo w h)
  intro _ ts us h
  exact skipTree w h

/-- The text that a rule reads is of as many tokens in both lists. -/
theorem withText (hx : Agree E x y P ts us) :
    Agree E (Rule.withText x) (Rule.withText y) (fun a b => P a.1 b.1 ∧ Joined T a.2 b.2) ts us := by
  apply get
  apply bind hx
  intro a b ts' us' ha h'
  apply get
  rw [h.length_eq, h'.length_eq]
  exact pure ⟨ha, w.joined (List.forall₂_take _ h)⟩ h'

/-! ## Repetition -/

omit w in
/-- The lists get shorter together, so both repetitions end, or neither. -/
theorem many {turn : Rule (Turn α)} {turn' : Rule (Turn α')}
    (ht : ∀ ts us, List.Forall₂ E ts us → Agree E turn turn' (Turn.Alike P) ts us) :
    Agree E (Rule.many turn) (Rule.many turn') (List.Forall₂ P) ts us := by
  induction hn : ts.length using Nat.strongRecOn generalizing ts us with
  | ind n ih =>
  subst hn
  have hl := h.length_eq
  have htu := ht ts us h
  unfold Agree at htu ⊢
  generalize hr : turn ts = r at htu
  generalize hs : turn' us = s at htu
  cases htu with
  | error hf =>
    change RunsAlike E _ (repeatTurns turn ts) (repeatTurns turn' us)
    rw [repeatTurns, repeatTurns, hr, hs]
    exact .error hf
  | @ok _ _ ts' us' ha h' =>
    cases ha with
    | stop =>
      rw [many_stop hr, many_stop hs]
      exact .ok .nil h'
    | last ha =>
      rw [many_last hr, many_last hs]
      exact .ok (.cons ha .nil) h'
    | more ha =>
      change RunsAlike E _ (repeatTurns turn ts) (repeatTurns turn' us)
      rw [repeatTurns, repeatTurns, hr, hs]
      simp only [← hl, ← h'.length_eq]
      split
      · next hlt =>
        have hm : RunsAlike E _ (repeatTurns turn ts') (repeatTurns turn' us') := ih _ hlt h' rfl
        generalize repeatTurns turn ts' = m at hm
        generalize repeatTurns turn' us' = m' at hm
        cases hm with
        | ok has h => exact .ok (.cons ha has) h
        | error hf => exact .error hf
      · exact .error .none

omit w in
/-- The elements are the same in both lists. -/
theorem manyEq {turn turn' : Rule (Turn α)}
    (ht : ∀ ts us, List.Forall₂ E ts us → Agree E turn turn' (Turn.Alike Eq) ts us) :
    Agree E (Rule.many turn) (Rule.many turn') Eq ts us :=
  (many h ht).mono fun _ _ => eq_of_forall₂_eq

/-! ## Lists -/

variable {closer : Kind} (hx : ∀ ts us, List.Forall₂ E ts us → Agree E x y P ts us)
include hx

theorem commaList :
    Agree E (Rule.commaList closer x) (Rule.commaList closer y) (List.Forall₂ P) ts us := by
  apply many h
  intro ts us h
  apply isAt w h
  refine ite (fun _ => pure .stop h) fun _ => ?_
  apply bind (hx ts us h)
  intro a b ts us ha h
  exact acceptIte w h (fun _ _ h => pure (.more ha) h) (pure (.last ha) h)

theorem strictCommaList {fault : Expectation} :
    Agree E (Rule.strictCommaList closer fault x) (Rule.strictCommaList closer fault y)
      (List.Forall₂ P) ts us := by
  apply many h
  intro ts us h
  apply isAt w h
  refine ite (fun _ => pure .stop h) fun _ => ?_
  apply bind (hx ts us h)
  intro a b ts us ha h
  refine acceptIte w h (fun _ _ h => pure (.more ha) h) ?_
  apply isAt w h
  exact ite (fun _ => pure (.last ha) h) fun _ => refuse h

theorem moreElements :
    Agree E (Grammar.moreElements closer x) (Grammar.moreElements closer y) (List.Forall₂ P)
      ts us := by
  apply many h
  intro ts us h
  refine acceptIte w h (fun ts us h => ?_) (pure .stop h)
  apply isAt w h
  refine ite (fun _ => pure .stop h) fun _ => ?_
  apply bind (hx ts us h)
  intro a b ts us ha h
  exact pure (.more ha) h

theorem parenOrTuple {paren : α → α} {paren' : α' → α'} {tuple : List α → α}
    {tuple' : List α' → α'} (hp : ∀ a b, P a b → P (paren a) (paren' b))
    (ht : ∀ as bs, List.Forall₂ P as bs → P (tuple as) (tuple' bs)) :
    Agree E (Grammar.parenOrTuple x paren tuple) (Grammar.parenOrTuple y paren' tuple') P ts us := by
  apply expectOver w h
  intro ts us h
  refine acceptIte w h (fun _ _ h => pure (ht _ _ .nil) h) ?_
  apply bind (hx ts us h)
  intro first first' ts us hf h
  refine acceptIte w h (fun _ _ h => pure (hp _ _ hf) h) ?_
  apply bind (moreElements w h hx)
  intro more more' ts us hm h
  apply expectOver w h
  intro ts us h
  exact pure (ht _ _ (.cons hf hm)) h

end Rule.Agree

end Ferrotype
