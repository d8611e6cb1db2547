import Ferrotype.Proofs.Schema.TypeFront

/-!
# Unions that read as functions

The text of a function goes on to the end of its result. So a union whose first member is a
function is written as a function whose result is a union. No other union is: behind a round
bracket that opens any other type its array goes on, and behind the parameters the arrow.
-/

namespace Ferrotype

/-! ## Round brackets -/

/-- What stands behind the bracket that closes the last but `n` of those that are open. -/
def behindGroup : Nat → List Char → List Char
  | _, [] => []
  | n, c :: s =>
    if c = '(' then behindGroup (n + 1) s
    else if c = ')' then if n = 0 then s else behindGroup (n - 1) s
    else behindGroup n s

/-- What is opened in a text is closed in it, and nothing else is. -/
def Grouped (s : List Char) : Prop := ∀ n r, behindGroup n (s ++ r) = behindGroup n r

namespace Grouped

variable {s t : List Char}

theorem nil : Grouped [] := fun _ _ => rfl

theorem append (hs : Grouped s) (ht : Grouped t) : Grouped (s ++ t) := fun n r => by
  rw [List.append_assoc, hs, ht]

theorem cons {c : Char} (ho : c ≠ '(') (hc : c ≠ ')') (hs : Grouped s) : Grouped (c :: s) :=
  fun n r => by rw [List.cons_append, behindGroup, if_neg ho, if_neg hc, hs]

theorem of_forall (h : ∀ c ∈ s, c ≠ '(' ∧ c ≠ ')') : Grouped s := by
  induction s with
  | nil => exact nil
  | cons c s ih =>
    obtain ⟨hc, hs⟩ := List.forall_mem_cons.1 h
    exact (ih hs).cons hc.1 hc.2

theorem of_all (h : (s.all fun c => c != '(' && c != ')') = true) : Grouped s :=
  of_forall fun c hc => by simpa using List.all_eq_true.1 h c hc

/-- The bracket that closes a group is the first behind its contents. -/
theorem behindGroup_close (hs : Grouped s) (n : Nat) (r : List Char) :
    behindGroup (n + 1) (s ++ ')' :: r) = behindGroup n r := by
  rw [hs]
  rfl

theorem behindGroup_end (hs : Grouped s) (r : List Char) : behindGroup 0 (s ++ ')' :: r) = r := by
  rw [hs]
  rfl

theorem group (hs : Grouped s) : Grouped ('(' :: (s ++ [')'])) := fun n r => by
  rw [List.cons_append, List.append_assoc]
  exact hs.behindGroup_close n r

theorem intercalate {sep : List Char} {ss : List (List Char)} (hsep : Grouped sep)
    (hs : ∀ s ∈ ss, Grouped s) : Grouped (sep.intercalate ss) := by
  induction ss with
  | nil => exact nil
  | cons s ss ih =>
    obtain ⟨h, hss⟩ := List.forall_mem_cons.1 hs
    cases ss with
    | nil => simpa using h
    | cons t ss =>
      rw [List.intercalate_cons_cons]
      exact (h.append hsep).append (ih hss)

end Grouped

theorem IsTypeName.grouped {name : String} (h : IsTypeName name) : Grouped name.toList :=
  .of_forall fun c hc => ⟨fun ho => h.unmarked c hc (ho ▸ by decide),
    fun hp => h.unmarked c hc (hp ▸ by decide)⟩

/-! ## Types -/

/-- The names in a type are names. Its unions may have any members. -/
inductive TsType.Named {ρ : Type} : TsType ρ → Prop where
  | primitive (p : Primitive) : Named (.primitive p)
  | array {t : TsType ρ} (ht : Named t) : Named (.array t)
  | object {ps : List (TsProperty ρ)} (hn : ∀ p ∈ ps, IsTypeName p.name)
    (ht : ∀ p ∈ ps, Named p.type) : Named (.object ps)
  | union {ts : List (TsType ρ)} (ht : ∀ t ∈ ts, Named t) : Named (.union ts)
  | reference {name : String} (hn : IsTypeName name) : Named (.reference name)
  | function {ps : List (TsParam ρ)} {result : TsType ρ} (hn : ∀ p ∈ ps, IsTypeName p.name)
    (ht : ∀ p ∈ ps, Named p.type) (hr : Named result) : Named (.function ps result)
  | generic {base : String} {ts : List (TsType ρ)} (hn : IsTypeName base)
    (ht : ∀ t ∈ ts, Named t) : Named (.generic base ts)

namespace TsType

variable {t : TsType Empty} {r u : List Char}

/-- Whether a type is a function, or a union whose first member starts with one. -/
def startsWithFunction : TsType ρ → Bool
  | function .. => true
  | union (t :: _) => t.startsWithFunction
  | _ => false

theorem Named.optional (h : t.Named) : t.optional.Named := by
  refine .union ?_
  simpa using ⟨h, .primitive _⟩

theorem grouped_labelled {name : String} (hn : IsTypeName name) (ht : Grouped t.chars)
    (optional : Bool) : Grouped (labelled name t optional) := by
  have hmark : Grouped (if optional then ['?'] else []) := by
    cases optional
    · exact .nil
    · exact .of_all (by decide)
  exact hn.grouped.append (hmark.append ((ht.cons (by decide) (by decide)).cons
    (by decide) (by decide)))

theorem grouped_commaList {α : Type} {f : α → List Char} {as : List α}
    (h : ∀ a ∈ as, Grouped (f a)) : Grouped (commaList (as.map f)) :=
  .intercalate (.of_all (by decide)) (by simpa using h)

theorem grouped_params {ps : List (TsParam Empty)} (hn : ∀ p ∈ ps, IsTypeName p.name)
    (ht : ∀ p ∈ ps, Grouped p.type.chars) : Grouped (commaList (ps.map TsParam.chars)) :=
  grouped_commaList fun p hp => by
    obtain ⟨name, type, optional⟩ := p
    exact grouped_labelled (hn _ hp) (ht _ hp) optional

theorem grouped_chars (h : t.Named) : Grouped t.chars := by
  induction h with
  | primitive p => exact (isTypeName_primitive p).grouped
  | reference hn => exact hn.grouped
  | @array t _ ih =>
    cases hl : t.isLoose with
    | true =>
      have : (array t).chars = '(' :: (t.chars ++ [')']) ++ ['[', ']'] := by
        simp [chars_array_loose hl]
      rw [this]
      exact ih.group.append (.of_all (by decide))
    | false =>
      rw [chars_array hl]
      exact ih.append (.of_all (by decide))
  | object hn _ ih =>
    rw [chars_object]
    have hps := grouped_commaList (f := TsProperty.chars) fun p hp => by
      obtain ⟨name, type, optional, readonly⟩ := p
      have hl := grouped_labelled (hn _ hp) (ih _ hp) optional
      cases readonly
      · exact hl
      · exact (Grouped.of_all (s := "readonly ".toList) (by decide)).append hl
    exact ((hps.append (.of_all (by decide))).cons (by decide) (by decide)).cons
      (by decide) (by decide)
  | union _ ih =>
    rw [chars_union]
    exact .intercalate (.of_all (by decide)) (by simpa using ih)
  | @function ps result hn _ _ iht ihr =>
    have : (TsType.function ps result).chars =
        '(' :: (commaList (ps.map TsParam.chars) ++ [')']) ++ [' ', '=', '>', ' '] ++
          result.chars := by simp [chars_function]
    rw [this]
    exact ((grouped_params hn iht).group.append (.of_all (by decide))).append ihr
  | generic hn _ ih =>
    rw [chars_generic]
    exact hn.grouped.append (((grouped_commaList ih).append (.of_all (by decide))).cons
      (by decide) (by decide))

/-! ## Functions -/

/-- Behind the group that any other type starts with stands the mark of an array. -/
theorem behindGroup_array (h : t.Named) (hf : t.startsWithFunction = false)
    (hr : ∀ s, r ≠ '(' :: s) (hu : t.chars ++ r = '(' :: u) : ∃ s, behindGroup 0 u = '[' :: s := by
  have hname {name : String} (hn : IsTypeName name) (s : List Char) :
      name.toList ++ s ≠ '(' :: u := by
    obtain ⟨c, cs, hc, hm⟩ := hn.cons
    rw [hc]
    rintro he
    exact hm ((List.cons.inj he).1 ▸ by decide)
  induction h generalizing r with
  | primitive p => exact absurd hu (hname (isTypeName_primitive p) r)
  | reference hn => exact absurd hu (hname hn r)
  | generic hn =>
    rw [chars_generic, List.append_assoc] at hu
    exact absurd hu (hname hn _)
  | object =>
    rw [chars_object] at hu
    cases hu
  | function => cases hf
  | @array t ht ih =>
    cases hl : t.isLoose with
    | true =>
      rw [chars_array_loose hl] at hu
      refine ⟨']' :: r, ?_⟩
      rw [← (List.cons.inj hu).2, List.append_eq, List.append_assoc]
      exact (grouped_chars ht).behindGroup_end _
    | false =>
      rw [chars_array hl, List.append_assoc] at hu
      refine ih ?_ (by simp) hu
      cases ht with
      | union | function => cases hl
      | _ => rfl
  | @union ts _ ih =>
    rw [chars_union] at hu
    cases ts with
    | nil => exact absurd hu (hr u)
    | cons t ts =>
      have htm : t ∈ t :: ts := List.mem_cons_self ..
      cases ts with
      | nil => exact ih t htm hf hr (by simpa using hu)
      | cons t' ts =>
        exact ih t htm hf (r := ' ' :: _) (by simp) (by simpa using hu)

/-- A function, with what follows it in a union as more of its result. -/
theorem exists_function (h : t.Named) (hf : t.startsWithFunction = true) :
    ∃ ps result, (function ps result).Named ∧ t.chars = (function ps result).chars := by
  induction h with
  | @function ps result hn ht hr => exact ⟨ps, result, .function hn ht hr, rfl⟩
  | @union ts ht ih =>
    cases ts with
    | nil => cases hf
    | cons t ts =>
      obtain ⟨htn, hts⟩ := List.forall_mem_cons.1 ht
      obtain ⟨ps, result, hn, hc⟩ := ih t (List.mem_cons_self ..) hf
      cases hn with
      | function hn hp hr =>
        refine ⟨ps, union (result :: ts),
          .function hn hp (.union (List.forall_mem_cons.2 ⟨hr, hts⟩)), ?_⟩
        rw [chars_function, chars_union, chars_union, List.map_cons, hc, chars_function]
        cases ts <;> simp
  | _ => cases hf

/-- A text reads as a function only if a function stands first. -/
theorem text_eq_function_iff (h : t.Named) :
    (∃ ps result, (function ps result).Named ∧ t.text = (function ps result).text) ↔
      t.startsWithFunction = true := by
  constructor
  · rintro ⟨ps, result, hn, he⟩
    by_contra hf
    cases hn with
    | function hn hp _ =>
      have hc : t.chars ++ [] = '(' :: (commaList (ps.map TsParam.chars) ++
          ')' :: ([' ', '=', '>', ' '] ++ result.chars)) := by
        rw [List.append_nil, chars, he, ← chars, chars_function]
        simp
      obtain ⟨s, hs⟩ := behindGroup_array h (Bool.not_eq_true _ ▸ hf) (by simp) hc
      rw [(grouped_params hn fun p hp' => grouped_chars (hp p hp')).behindGroup_end] at hs
      cases hs
  · intro hf
    obtain ⟨ps, result, hn, hc⟩ := exists_function h hf
    exact ⟨ps, result, hn, String.toList_inj.1 hc⟩

/--
What may be absent reads as a function exactly if it starts with one: the bar before `undefined`
then belongs to the result.
-/
theorem optional_reads_as_function (h : t.Named) :
    (∃ ps result, (function ps result).Named ∧ t.optional.text = (function ps result).text) ↔
      t.startsWithFunction = true :=
  text_eq_function_iff h.optional

/-- A callback that may be absent reads as a callback; a list of them does not. -/
theorem optional_reads_as_function_callback :
    let callback : TsType Empty :=
      function [.mk "key" (reference "Key") false] (primitive .void)
    let list : TsType Empty := array callback
    callback.Named ∧ list.Named ∧
      callback.optional.text = "(key: Key) => void | undefined" ∧
      list.optional.text = "((key: Key) => void)[] | undefined" ∧
      (∃ ps result, (function ps result).Named ∧
        callback.optional.text = (function ps result).text) ∧
      ¬∃ ps result, (function ps result).Named ∧
        list.optional.text = (function ps result).text := by
  intro callback list
  have hname (name : String) (hn : name ∈ ["key", "Key"]) : IsTypeName name := by
    simp only [List.mem_cons, List.not_mem_nil, or_false] at hn
    rcases hn with rfl | rfl
    all_goals exact isTypeName_of_word (by decide) (List.all_eq_true.1 (by decide))
  have hc : callback.Named := by
    refine .function ?_ ?_ (.primitive _)
    all_goals simp only [List.forall_mem_singleton]
    · exact hname _ (by decide)
    · exact .reference (hname _ (by decide))
  have hl : list.Named := .array hc
  exact ⟨hc, hl, by decide, by decide, (optional_reads_as_function hc).2 rfl,
    fun hf => absurd ((optional_reads_as_function hl).1 hf) (by decide)⟩

end TsType

end Ferrotype
