import Ferrotype.Proofs.Grammar.Types

/-! # Signatures in a longer file -/

namespace Ferrotype

/-! ## Inputs that are moved down -/

def FnInput.down (k : Nat) (i : FnInput) : FnInput :=
  { i with attributes := i.attributes.map (Attribute.down k) }

def Signature.down (k : Nat) (s : Signature) : Signature :=
  { s with inputs := s.inputs.map (FnInput.down k) }

namespace Grammar

open Rule

variable {w : Frame} {ts rest : List Token} {ds es : List Delim}

/-! ## Receivers -/

theorem dropIf_fill {p : Kind → Bool} (h : w.Sealed ts) (hp : ∀ k, p k = true → k.endsItem = false) :
    dropIf p (w.fill ts) = w.fill (dropIf p ts) ∧ w.Sealed (dropIf p ts) := by
  cases ts with
  | nil => simp [dropIf, h.nil, Frame.Sealed, Frame.fill]
  | cons t ts =>
    by_cases ht : p t.kind = true
    · simpa [dropIf, ht] using h.behind_of_not_end (hp _ ht)
    · simpa [dropIf, ht] using h

theorem dropIf_reads {p : Kind → Bool} (hp : ∀ k, p k = true → k.isDelim = false) (ds : List Delim)
    (ts : List Token) : Reads ds ds ts (dropIf p ts) := by
  cases ts with
  | nil => exact .refl ds []
  | cons t ts =>
    simp only [dropIf]
    split
    · next ht => exact .plain (hp _ ht) ds ts
    · exact .refl ds _

theorem behindSelf?_fill (h : w.Sealed ts) :
    behindSelf? (w.fill ts) = (behindSelf? ts).map w.fill := by
  cases ts with
  | nil => simp [behindSelf?, h.nil]
  | cons t ts =>
    by_cases hk : t.kind = .keyword .selfValueKw
    · have hs := h.behind_of_not_end (t := t) (by rw [hk]; rfl)
      by_cases hc : headIs (.punct .colonColon) ts = true <;> simp [behindSelf?, hk, hs.headIs, hc]
    · simp [behindSelf?, hk]

theorem behindSelf?_reads (h : behindSelf? ts = some rest) (ds : List Delim) :
    Reads ds ds ts rest := by
  unfold behindSelf? at h
  split at h
  · split at h
    · next hk =>
      cases h
      exact .plain (by rw [hk.1]; rfl) ds _
    · cases h
  · cases h

theorem plainReceiver?_fill (h : w.Sealed ts) :
    plainReceiver? (w.fill ts) = (plainReceiver? ts).map (Prod.map id w.fill) := by
  obtain ⟨hd, hs⟩ := dropIf_fill (p := (· == .keyword .mutKw)) h (by simp [Kind.endsItem])
  rw [plainReceiver?, hd, behindSelf?_fill hs, h.headIs, plainReceiver?]
  cases behindSelf? (dropIf (· == .keyword .mutKw) ts) <;> rfl

theorem plainReceiver?_reads {mutable : Bool} (h : plainReceiver? ts = some (mutable, rest))
    (ds : List Delim) : Reads ds ds ts rest := by
  obtain ⟨rest', hb, he⟩ := Option.map_eq_some_iff.1 h
  cases he
  exact (dropIf_reads (by simp [Kind.isDelim]) ds ts).trans (behindSelf?_reads hb ds)

theorem refReceiver?_fill (h : w.Sealed ts) :
    refReceiver? (w.fill ts) = (refReceiver? ts).map (Prod.map id w.fill) := by
  cases ts with
  | nil => simp [refReceiver?, h.nil]
  | cons t ts =>
    by_cases hk : t.kind = .punct .and
    · have hs := h.behind_of_not_end (t := t) (by rw [hk]; rfl)
      obtain ⟨hd, hs⟩ := dropIf_fill (p := (· == .lifetime)) hs (by simp [Kind.endsItem])
      simp only [refReceiver?, Frame.fill_cons, Token.down_kind, hk, if_true, hd]
      exact plainReceiver?_fill hs
    · simp [refReceiver?, hk]

theorem refReceiver?_reads {mutable : Bool} (h : refReceiver? ts = some (mutable, rest))
    (ds : List Delim) : Reads ds ds ts rest := by
  unfold refReceiver? at h
  split at h
  · next t ts =>
    split at h
    · next hk =>
      have hr := plainReceiver?_reads h ds
      exact (Reads.plain (by rw [hk]; rfl) ds _).trans
        ((dropIf_reads (by simp [Kind.isDelim]) ds ts).trans hr)
    · cases h
  · cases h

/-! ## Patterns -/

/-- One token decides whether there is a pattern, or leaves it to the tokens behind it. -/
theorem hasPattern_cons {kind : Kind} (h : kind.after ds = some es) :
    (∃ b, ∀ t ts, t.kind = kind → hasPattern ds.length (t :: ts) = b) ∨
      ∀ t ts, t.kind = kind → hasPattern ds.length (t :: ts) = hasPattern es.length ts := by
  match kind with
  | .opener d =>
    cases h
    exact .inr fun t ts hk => by simp [hasPattern, hk]
  | .closer d =>
    cases ds with
    | nil => simp [Kind.after] at h
    | cons e ds =>
      obtain ⟨-, rfl⟩ : e = d ∧ ds = es := by simpa [Kind.after] using h
      exact .inr fun t ts hk => by simp [hasPattern, hk]
  | .punct p =>
    cases h
    by_cases hp : p = .comma ∨ p = .colon
    · cases ds with
      | nil =>
        refine .inl ⟨p == .colon, fun t ts hk => ?_⟩
        rcases hp with rfl | rfl <;> simp [hasPattern, hk]
      | cons =>
        refine .inr fun t ts hk => ?_
        rcases hp with rfl | rfl <;> simp [hasPattern, hk]
    · rw [not_or] at hp
      exact .inr fun t ts hk => by simp [hasPattern, hk, hp.1, hp.2]
  | .keyword _ | .underscore | .int | .float | .string | .byteString | .char | .byte | .lifetime
  | .identifier | .doc _ =>
    cases h
    exact .inr fun t ts hk => by simp [hasPattern, hk]

/--
Tokens that are read decide whether there is a pattern, or leave it to the tokens behind them,
with the groups that are still open.
-/
theorem hasPattern_append {read : List Token} (h : openAfter ds read = some es) (k : Nat) :
    (∃ b, ∀ rest rest', hasPattern ds.length (read ++ rest) = b ∧
        hasPattern ds.length (read.map (Token.down k) ++ rest') = b) ∨
      ∀ rest, hasPattern ds.length (read ++ rest) = hasPattern es.length rest ∧
        hasPattern ds.length (read.map (Token.down k) ++ rest) = hasPattern es.length rest := by
  induction read generalizing ds with
  | nil =>
    cases h
    exact .inr fun rest => ⟨rfl, rfl⟩
  | cons t read ih =>
    rw [openAfter_cons] at h
    obtain ⟨ds', hd, h⟩ := Option.bind_eq_some_iff.1 h
    simp only [List.cons_append, List.map_cons]
    rcases hasPattern_cons hd with ⟨b, hb⟩ | hc
    · exact .inl ⟨b, fun rest rest' => ⟨hb t _ rfl, hb _ _ rfl⟩⟩
    · have ht := fun us => hc t us rfl
      have hd := fun us => hc (t.down k) us rfl
      simp only [ht, hd]
      exact ih h

/-- What may follow an input: a comma or the bracket that closes the list. -/
def EndsInput (w : Frame) (rest : List Token) : Prop :=
  w.Sealed rest ∧ (headIs (.punct .comma) rest = true ∨ headIs (.closer .paren) rest = true)

theorem hasPattern_fill (h : Reads [] [] ts rest) (he : EndsInput w rest) :
    hasPattern 0 (w.fill ts) = hasPattern 0 ts := by
  obtain ⟨read, rfl, hr⟩ := h
  have hf : w.fill (read ++ rest) = read.map (Token.down w.above) ++ w.fill rest := by
    simp [Frame.fill]
  rw [hf]
  rcases hasPattern_append hr w.above with ⟨b, hb⟩ | hc
  · exact (hb rest (w.fill rest)).2.trans (hb rest (w.fill rest)).1.symm
  · refine (hc (w.fill rest)).2.trans (Eq.trans ?_ (hc rest).1.symm)
    cases rest with
    | nil => simp [EndsInput, headIs] at he
    | cons t rest =>
      have hk : t.kind = .punct .comma ∨ t.kind = .closer .paren := by simpa [headIs] using he.2
      rcases hk with hk | hk <;> simp [hasPattern, hk]

/-! ## Inputs -/

theorem wholeType_local (allowPlus : Bool) :
    (wholeType allowPlus).Local (wholeType allowPlus) w id :=
  whole_local fun hR => type_local hR allowPlus

/-- A type, and its pattern if there is one. -/
theorem typedParam_local (named : Bool) :
    Rule.Local
      (if named = true then do
        let (_, pattern) ← withText <| skipTo (· == .punct .colon)
        discard advance
        return .typed pattern (← wholeType true)
      else return .typed "" (← wholeType true))
      (if named = true then do
        let (_, pattern) ← withText <| skipTo (· == .punct .colon)
        discard advance
        return .typed pattern (← wholeType true)
      else return .typed "" (← wholeType true)) w (id : Param → Param) := by
  intro ts ds
  refine .ite (fun _ => ?_) fun _ => .bind (wholeType_local true ts ds) fun _ _ => .pure rfl
  refine .bindRun (.withText .skipTo) fun r rest h => ?_
  obtain ⟨t, us, rfl, hk⟩ := dropTreesUntil_stop (run_skipTo.1 (run_withText.1 h).1)
  refine .advanceThen (by rw [beq_iff_eq.1 hk]; rfl) ?_
  exact .bind (wholeType_local true us ds) fun _ _ => .pure rfl

theorem param_follows : param.Follows param w (EndsInput w) id ts ds ds := by
  refine .getThen (.inSealed (fun hs => by rw [refReceiver?_fill hs]) ?_)
  cases hb : refReceiver? ts with
  | some found =>
    refine .mono ?_ fun _ hq => hq.1
    exact .setThen (fun _ => refReceiver?_reads hb ds) rfl (.pure rfl)
  | none =>
  refine .inSealed (fun hs => by rw [plainReceiver?_fill hs]) ?_
  cases hp : plainReceiver? ts with
  | some found =>
    refine .mono ?_ fun _ hq => hq.1
    refine .setThen (fun _ => plainReceiver?_reads hp ds) rfl ?_
    refine .join (fun h => .acceptIte rfl (fun ts => ?_) (.bind (.pure rfl) h)) fun _ _ => .pure rfl
    exact .bind (wholeType_local true ts ds) fun _ ts => .bind (.pure rfl) h
  | none =>
  have hty := typedParam_local (w := w) (hasPattern 0 ts) ts
  refine .ofRun (fun hsp a rest ha hq => ?_) ((hty ds).mono fun _ hq => hq.1)
  rw [hasPattern_fill (hty [] hsp a rest ha).1 hq]
  rfl

theorem fnInput_follows :
    fnInput.Follows fnInput w (EndsInput w) (Option.map (FnInput.down w.above)) ts ds ds := by
  refine .bindMap (whole_local outerAttributes_local ts ds) fun attributes ts => ?_
  refine .acceptIte rfl (fun ts => .mono (.pure rfl) fun _ hq => hq.1) ?_
  exact .bindPure param_follows fun _ => rfl

theorem skipWhere_local : skipWhere.Local skipWhere w id :=
  fun _ _ => .acceptIte rfl (fun _ => .skipTo) (.pure rfl)

/-- One turn of a list of inputs. -/
def inputTurn : Rule (Turn (Option FnInput)) := do
  if ← isAt (.closer .paren) then return .stop
  let a ← fnInput
  if ← accept (.punct .comma) then return .more a else return .last a

/-- A turn comes to the end of the list, an input and a comma, or the last input. -/
theorem run_inputTurn {r : Turn (Option FnInput)} :
    inputTurn ts = .ok (r, rest) ↔
    (r = .stop ∧ rest = ts ∧ headIs (.closer .paren) ts = true) ∨
      headIs (.closer .paren) ts = false ∧ ∃ a mid, fnInput ts = .ok (a, mid) ∧
        ((r = .more a ∧ ∃ t, mid = t :: rest ∧ t.kind = .punct .comma) ∨
          r = .last a ∧ rest = mid ∧ headIs (.punct .comma) mid = false) := by
  simp only [inputTurn, run_bind, run_isAt, run_ite, run_pure, run_accept]
  constructor
  · grind
  · rintro (⟨rfl, rfl, hc⟩ | ⟨hc, a, mid, ha, ⟨rfl, ht⟩ | ⟨rfl, rfl, hm⟩⟩)
    · exact ⟨true, _, ⟨hc.symm, rfl⟩, .inl ⟨rfl, rfl, rfl⟩⟩
    · refine ⟨false, _, ⟨hc.symm, rfl⟩, .inr ⟨by simp, a, mid, ha, true, rest, .inl ⟨rfl, ht⟩, ?_⟩⟩
      exact .inl ⟨rfl, rfl, rfl⟩
    · refine ⟨false, _, ⟨hc.symm, rfl⟩, .inr ⟨by simp, a, _, ha, false, _, .inr ⟨rfl, rfl, hm⟩, ?_⟩⟩
      exact .inr ⟨by simp, rfl, rfl⟩

theorem inputTurn_follows {r : Turn (Option FnInput)} (hsp : Unmistakable ts)
    (h : inputTurn ts = .ok (r, rest)) :
    Reads ds ds ts rest ∧
      (w.Sealed rest → (∃ a, r = .more a) ∨ headIs (.closer .paren) rest = true → w.Sealed ts ∧
        inputTurn (w.fill ts) = .ok (r.map (Option.map (FnInput.down w.above)), w.fill rest)) := by
  rcases run_inputTurn.1 h with ⟨rfl, rfl, hc⟩ | ⟨hc, a, mid, ha, hr⟩
  · exact ⟨.refl ds rest, fun hs _ => ⟨hs, run_inputTurn.2 (.inl ⟨rfl, rfl, (hs.headIs _).trans hc⟩)⟩⟩
  have hin : fnInput.Follows fnInput w (EndsInput w) _ ts ds ds := fnInput_follows
  obtain ⟨hin, -, hx⟩ := hin hsp a mid ha
  rcases hr with ⟨rfl, t, rfl, ht⟩ | ⟨rfl, rfl, hm⟩
  · refine ⟨hin.trans (.plain (by rw [ht]; rfl) ds rest), fun hs _ => ?_⟩
    obtain ⟨hs', hx⟩ := hx ⟨hs.of_suffix (List.suffix_cons t rest), .inl (by simp [headIs, ht])⟩
    refine ⟨hs', run_inputTurn.2 (.inr ⟨(hs'.headIs _).trans hc, _, _, hx, .inl ⟨rfl, ?_⟩⟩)⟩
    exact ⟨_, rfl, ht⟩
  · refine ⟨hin, fun hs hd => ?_⟩
    obtain ⟨hs', hx⟩ := hx ⟨hs, .inr (hd.resolve_left (by simp))⟩
    exact ⟨hs', run_inputTurn.2 (.inr ⟨(hs'.headIs _).trans hc, _, _, hx,
      .inr ⟨rfl, rfl, (hs.headIs _).trans hm⟩⟩)⟩

theorem inputs_follows :
    (commaList (.closer .paren) fnInput).Follows (commaList (.closer .paren) fnInput) w
      (fun rest => w.Sealed rest ∧ headIs (.closer .paren) rest = true)
      (List.map (Option.map (FnInput.down w.above))) ts ds ds := by
  intro hsp as rest h
  suffices h : Reads ds ds ts rest ∧
      (w.Sealed rest ∧ headIs (.closer .paren) rest = true → w.Sealed ts ∧
        commaList (.closer .paren) fnInput (w.fill ts) =
          .ok (as.map (Option.map (FnInput.down w.above)), w.fill rest)) from
    ⟨h.1, fun hw hq => Follows.absurd_sealed hw hq.1, h.2⟩
  refine many_induction (fun ts as rest => Unmistakable ts → Reads ds ds ts rest ∧
    (w.Sealed rest ∧ headIs (.closer .paren) rest = true → w.Sealed ts ∧
      commaList (.closer .paren) fnInput (w.fill ts) =
        .ok (as.map (Option.map (FnInput.down w.above)), w.fill rest)))
    ?stop ?last ?more h hsp
  case stop =>
    intro ts rest h hsp
    obtain ⟨hr, hx⟩ := inputTurn_follows (w := w) hsp h
    exact ⟨hr, fun hq => ⟨(hx hq.1 (.inr hq.2)).1, many_stop (hx hq.1 (.inr hq.2)).2⟩⟩
  case last =>
    intro ts a rest h hsp
    obtain ⟨hr, hx⟩ := inputTurn_follows (w := w) hsp h
    exact ⟨hr, fun hq => ⟨(hx hq.1 (.inr hq.2)).1, many_last (hx hq.1 (.inr hq.2)).2⟩⟩
  case more =>
    intro ts a mid as rest h hlt _ ih hsp
    obtain ⟨hr, hx⟩ := inputTurn_follows (w := w) hsp h
    obtain ⟨hr', ih⟩ := ih (hsp.of_suffix hr.suffix)
    refine ⟨hr.trans hr', fun hq => ?_⟩
    obtain ⟨hs, ih⟩ := ih hq
    obtain ⟨hs, hx⟩ := hx hs (.inl ⟨a, rfl⟩)
    exact ⟨hs, many_more hx (Frame.length_fill_lt.2 hlt) ih⟩

theorem signature_local : signature.Local signature w (Signature.down w.above) := by
  intro ts ds
  refine .bind (fnQualifiers_local ts ds) fun qualifiers ts => ?_
  refine .bind (.discard (.expect rfl)) fun _ ts => ?_
  refine .bind (expectName_local ts ds) fun name ts => ?_
  refine .bind (whole_local generics_local ts ds) fun generics ts => ?_
  refine .bind (.discard (.expect rfl)) fun _ ts => ?_
  refine .bindTo inputs_follows (fun a rest b rest' h hs => ?_) fun inputs ts _ => ?_
  · obtain ⟨_, mid, hm, -⟩ := run_bind.1 h
    obtain ⟨t, hm⟩ := run_discard.1 hm
    obtain ⟨rfl, ht⟩ := run_expect.1 hm
    exact ⟨hs, by simp [headIs, ht]⟩
  refine .bind (.discard (.expect (Kind.after_closer _ _))) fun _ ts => ?_
  refine .join (fun h => .acceptIte rfl (fun ts => ?_) (.bind (.pure rfl) h)) fun output ts => ?_
  · exact .bind (wholeType_local true ts ds) fun _ ts => .bind (.pure rfl) h
  refine .bind (skipWhere_local ts ds) fun _ ts => .pure ?_
  have hmap : (inputs.map (Option.map (FnInput.down w.above))).filterMap id =
      (inputs.filterMap id).map (FnInput.down w.above) := by
    simp [List.filterMap_map, List.map_filterMap]
  have hany : (inputs.map (Option.map (FnInput.down w.above))).any Option.isNone =
      inputs.any Option.isNone := by
    simp [List.any_map, Function.comp_def]
  rw [hmap, hany]
  rfl

end Grammar

end Ferrotype
