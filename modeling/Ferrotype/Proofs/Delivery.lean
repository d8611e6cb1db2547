import Ferrotype.Proofs.Output.Chunks
import Ferrotype.Proofs.Output.Level
import Ferrotype.Proofs.Output.Order
import Ferrotype.Transpile

/-!
# What a writer gets

A writer gets the first pieces of a module: as many as it takes, and none behind a value that is no
declaration. It is asked for no piece behind one that it refused. All of the pieces together are
the text of the module, which is written in one piece when a source is transpiled.
-/

namespace Ferrotype

namespace Output

variable {α σ : Type} {options : RenderOptions}

/-! ## Writers -/

/-- A writer takes a piece or refuses it. What it remembers is its state. -/
abbrev Writer (σ : Type) := String → σ → Bool × σ

/-- Gives pieces to a writer, up to one that it refuses or to a value that is no declaration. -/
def writeAll (write : Writer σ) : List (Except Scalar String) → σ → Option WriteStop × σ
  | [], s => (none, s)
  | .error value :: _, s => (some (.foreign value), s)
  | .ok piece :: pieces, s =>
    match write piece s with
    | (true, s) => writeAll write pieces s
    | (false, s) => (some .refused, s)

/-- Takes a number of pieces, or any number, and remembers every piece that it was given. -/
def recorder (limit : Option Nat) : Writer (List String) := fun piece given =>
  (limit.all fun k => given.length < k, given ++ [piece])

/-- Why writing stops, where what comes after some whole pieces is no piece. -/
def stopOf (limit : Option Nat) (whole : List String) (after : List (Except Scalar String)) :
    Option WriteStop :=
  if limit.any fun k => k < whole.length then some .refused
  else
    match after with
    | .error value :: _ => some (.foreign value)
    | _ => none

/-- The first element, if there is one, is a value that is no declaration. -/
def StartsForeign (after : List (Except Scalar String)) : Prop :=
  ∀ first ∈ after.head?, ∃ value, first = .error value

/-- The whole pieces before the first value that is no declaration. -/
theorem exists_whole (ps : List (Except Scalar String)) :
    ∃ (whole : List String) (after : List (Except Scalar String)),
      ps = whole.map .ok ++ after ∧ StartsForeign after := by
  induction ps with
  | nil => exact ⟨[], [], rfl, by simp [StartsForeign]⟩
  | cons p ps ih =>
    cases p with
    | error value => exact ⟨[], .error value :: ps, rfl, by simp [StartsForeign]⟩
    | ok piece =>
      obtain ⟨whole, after, rfl, h⟩ := ih
      exact ⟨piece :: whole, after, rfl, h⟩

theorem deliver_whole (limit : Option Nat) (whole : List String)
    {after : List (Except Scalar String)} (h : StartsForeign after) :
    deliver limit (whole.map .ok ++ after) =
      ⟨whole.take (limit.getD whole.length), stopOf limit whole after⟩ := by
  induction whole generalizing limit with
  | nil =>
    cases after with
    | nil => cases limit <;> simp [deliver, stopOf]
    | cons first after =>
      obtain ⟨value, rfl⟩ := h first rfl
      cases limit <;> simp [deliver, stopOf]
  | cons piece whole ih =>
    match limit with
    | none => simp [deliver, ih, stopOf]
    | some 0 => simp [deliver, stopOf]
    | some (k + 1) => simp [deliver, ih, stopOf]

/-- The writer is given the pieces that it takes, and then at most one: the one that it refuses. -/
theorem writeAll_whole (more : Option Nat) (given whole : List String)
    {after : List (Except Scalar String)} (h : StartsForeign after) :
    writeAll (recorder (more.map (given.length + ·))) (whole.map .ok ++ after) given =
      (stopOf more whole after, given ++ whole.take (more.elim whole.length (· + 1))) := by
  -- The writer has taken the pieces in `given` and takes `more` of them.
  induction whole generalizing more given with
  | nil =>
    cases after with
    | nil => cases more <;> simp [writeAll, stopOf]
    | cons first after =>
      obtain ⟨value, rfl⟩ := h first rfl
      cases more <;> simp [writeAll, stopOf]
  | cons piece whole ih =>
    match more with
    | none =>
      have hr := ih none (given ++ [piece])
      simpa [writeAll, recorder, stopOf] using hr
    | some 0 => simp [writeAll, recorder, stopOf]
    | some (k + 1) =>
      have hr := ih (some k) (given ++ [piece])
      rw [Option.map_some, List.length_append, List.length_singleton, Nat.add_assoc,
        Nat.add_comm 1 k] at hr
      simpa [writeAll, recorder, stopOf] using hr

/-! ## Modules -/

/-- The order in which a module shows its declarations: by name, or as they are given. -/
def Arranged (options : RenderOptions) (entries order : List (String × α)) : Prop :=
  if options.sortAlphabetically then Sorts Prod.fst entries order else order = entries

theorem arranged_ordered (options : RenderOptions) (entries : List (String × α)) :
    Arranged options entries (ordered options.sortAlphabetically Prod.fst entries) := by
  unfold Arranged ordered
  cases options.sortAlphabetically with
  | false => rfl
  | true => exact sortByName_sorts Prod.fst entries

theorem pieces_schema (options : RenderOptions) (schema : Schema) :
    pieces options (schema.map fun e => (e.1, Entry.declaration e.2)) =
      (chunks options ((ordered options.sortAlphabetically Prod.fst schema).map fun e =>
        declarationText options e.2)).map .ok := by
  have ho := ordered_map Prod.fst Prod.fst
    (f := fun e : String × Declaration => (e.1, Entry.declaration e.2)) (fun _ => rfl)
    options.sortAlphabetically schema
  simp [pieces_eq, chunks, ho, Entry.chunk]

/-- Declarations stop a writer only where it refuses a piece. -/
theorem deliver_chunks (limit : Option Nat) (chunks : List String) :
    deliver limit (chunks.map .ok) =
      ⟨chunks.take (limit.getD chunks.length),
        if limit.any fun k => k < chunks.length then some .refused else none⟩ := by
  have hn : StartsForeign [] := by simp [StartsForeign]
  have hd := deliver_whole limit chunks hn
  rw [List.append_nil] at hd
  exact hd

theorem transpileTo_eq (options : Options) (limit : Option Nat) (source : String) :
    transpileTo options limit source =
      (fun schema =>
        if limit = some 0 then ⟨[], some .refused⟩
        else ⟨[moduleText options.render schema], none⟩) <$> extract options.extract source := by
  simp only [transpileTo, transpile, map_eq_pure_bind, bind_assoc, pure_bind]
  rfl

/--
The chunks of a module are its preamble, the opening of its namespace, its declarations in order,
each with a blank line, and the closing of the namespace. A writer that takes `limit` pieces, or any
number, gets the first chunks up to a value that is no declaration, and is given nothing behind a
chunk that it refuses. The chunk of a declaration is the same as on its own, though all declarations
share one level of indentation. The chunks make up the text of the module, and a source that is
transpiled is written as that text at once, or not at all.
-/
theorem deliver_exactly (options : Options) (limit : Option Nat) :
    (∀ entries : List (String × Entry), ∃ order whole after,
      Arranged options.render entries order ∧
        Leveled.Gives 0 (order.mapM fun e => Leveled.entry options.render e.2)
          (order.map fun e => e.2.chunk options.render) ∧
        pieces options.render entries =
          (chunksBefore options.render).map .ok ++
            order.map (fun e => e.2.chunk options.render) ++
            (chunksBehind options.render).map .ok ∧
        pieces options.render entries = whole.map .ok ++ after ∧ StartsForeign after ∧
        deliver limit (pieces options.render entries) =
          ⟨whole.take (limit.getD whole.length), stopOf limit whole after⟩ ∧
        writeAll (recorder limit) (pieces options.render entries) [] =
          (stopOf limit whole after, whole.take (limit.elim whole.length (· + 1)))) ∧
    (∀ schema : Schema, ∃ order all,
      Arranged options.render schema order ∧
        all = chunksBefore options.render ++
          order.map (fun e => declarationText options.render e.2 ++ "\n\n") ++
          chunksBehind options.render ∧
        pieces options.render (schema.map fun e => (e.1, Entry.declaration e.2)) = all.map .ok ∧
        deliver limit (all.map .ok) =
          ⟨all.take (limit.getD all.length),
            if limit.any fun k => k < all.length then some .refused else none⟩ ∧
        moduleText options.render schema = String.join all) ∧
    ∀ source, transpileTo options limit source =
      (fun schema =>
        if limit = some 0 then ⟨[], some .refused⟩
        else ⟨[moduleText options.render schema], none⟩) <$> extract options.extract source := by
  refine ⟨fun entries => ?_, fun schema => ?_, transpileTo_eq options limit⟩
  · obtain ⟨whole, after, hp, hf⟩ := exists_whole (pieces options.render entries)
    refine ⟨ordered options.render.sortAlphabetically Prod.fst entries, whole, after,
      arranged_ordered _ entries, ?_, pieces_eq _ _, hp, hf, ?_, ?_⟩
    · refine Leveled.gives_mapM _ fun e _ => ?_
      rw [← Entry.piece_eq]
      exact Leveled.entry_gives options.render e.2
    · rw [hp, deliver_whole limit whole hf]
    · have hw := writeAll_whole limit [] whole hf
      have hl : limit.map (([] : List String).length + ·) = limit := by cases limit <;> simp
      rw [hl, List.nil_append] at hw
      rw [hp, hw]
  · refine ⟨ordered options.render.sortAlphabetically Prod.fst schema, _,
      arranged_ordered _ schema, rfl, ?_, deliver_chunks limit _, ?_⟩
    · rw [pieces_schema, chunks, List.map_map]
      rfl
    · rw [moduleText_eq, chunks, List.map_map]
      rfl

/-- A preamble, a namespace, and a writer that takes two chunks and is asked for a third. -/
theorem deliver_exactly_namespace :
    let options : RenderOptions := { preamble := some "// p", namespaceName := some "N" }
    let schema : Schema := [("A", .interface "A" [] none)]
    let all := ["// p\n", "export namespace N \x7b\n", "export interface A \x7b\n\x7d\n\n",
      " \x7d\n"]
    pieces options (schema.map fun e => (e.1, Entry.declaration e.2)) = all.map .ok ∧
      deliver (some 2) (all.map .ok) = ⟨all.take 2, some .refused⟩ ∧
      writeAll (recorder (some 2)) (all.map .ok) [] = (some .refused, all.take 3) ∧
      moduleText options schema = String.join all := by
  intro options schema all
  obtain ⟨-, h, -⟩ := deliver_exactly ⟨{}, options⟩ (some 2)
  obtain ⟨order, all', ho, ha, hp, hd, ht⟩ := h schema
  obtain rfl : order = schema := ho
  obtain rfl : all' = all := ha.trans (by decide)
  exact ⟨hp, hd, rfl, ht⟩

end Output

end Ferrotype
