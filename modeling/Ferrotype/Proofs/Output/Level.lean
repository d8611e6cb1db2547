import Ferrotype.Output.Module

/-!
# The level of indentation

The level of indentation may be a state that all declarations of a module share, raised for the
members of a declaration and lowered behind them. Every declaration leaves the level as it was, so
its text is the same as on its own.
-/

namespace Ferrotype.Output

variable {α β : Type} {options : RenderOptions}

/-! ## A shared level -/

/-- Something made at a level of indentation, which it may change. -/
abbrev Leveled := StateM Nat

namespace Leveled

/-- At this level, `x` comes to `a` and leaves the level as it was. -/
def Gives (level : Nat) (x : Leveled α) (a : α) : Prop := x.run level = (a, level)

variable {level : Nat} {x : Leveled α} {f : α → Leveled β} {a : α} {b : β}

theorem Gives.bind (hx : Gives level x a) (hf : Gives level (f a) b) : Gives level (x >>= f) b := by
  rw [Gives, StateT.run_bind, hx]
  exact hf

theorem gives_pure (a : α) : Gives level (pure a) a := rfl

theorem gives_mapM {g : α → β} (as : List α) (h : ∀ a ∈ as, Gives level (f a) (g a)) :
    Gives level (as.mapM f) (as.map g) := by
  induction as with
  | nil => exact gives_pure []
  | cons a as ih =>
    rw [List.mapM_cons]
    have ha := h a List.mem_cons_self
    have has := ih fun a ha => h a (List.mem_cons_of_mem _ ha)
    exact ha.bind (has.bind (gives_pure _))

/-- Runs one level deeper and comes back. -/
def deeper (x : Leveled α) : Leveled α := do
  modify (· + 1)
  let a ← x
  modify (· - 1)
  return a

theorem Gives.deeper (hx : Gives (level + 1) x a) : Gives level (deeper x) a := by
  show (x.run (level + 1) >>= fun p => pure (p.1, p.2 - 1)) = (a, level)
  rw [hx]
  rfl

/-! ## Members -/

def indentation : Leveled String := do return String.join (List.replicate (← get) indent)

def doc (text : Option String) : Leveled (List String) := do return docLines (← get) text

/-- A doc comment and the line behind it. -/
def documented (text : Option String) (line : String) : Leveled (List String) := do
  let lines ← doc text
  return lines ++ [(← indentation) ++ line]

def field (f : InterfaceField) : Leveled (List String) :=
  documented f.doc (f.name ++ (if f.optional then "?" else "") ++ ": " ++ f.type)

def method (m : Method) : Leveled (List String) :=
  let params := m.params.map fun p => p.name ++ ": " ++ p.type
  documented m.doc (m.name ++ "(" ++ ", ".intercalate params ++ "): " ++ m.result)

/-- A variant, and its position. -/
def ordinal (m : EnumMember × Nat) : Leveled (List String) :=
  documented m.1.doc (m.1.name ++ " = " ++ m.1.value.elim (toString m.2) EnumValue.text ++ ",")

/-- One of `count` members of a union, and its position. -/
def alternative (count : Nat) (m : String × Nat) : Leveled (List String) :=
  documented none (m.1 ++ if m.2 + 1 = count then ";" else " |")

theorem documented_gives (text : Option String) (line : String) :
    Gives 1 (documented text line) (docLines 1 text ++ [indent ++ line]) := rfl

theorem field_gives (f : InterfaceField) : Gives 1 (field f) (fieldLines f) := by
  have hf := documented_gives f.doc (f.name ++ (if f.optional then "?" else "") ++ ": " ++ f.type)
  simpa only [field, fieldLines, String.append_assoc] using hf

theorem method_gives (m : Method) : Gives 1 (method m) (methodLines m) := by
  have hm := documented_gives m.doc
    (m.name ++ "(" ++ ", ".intercalate (m.params.map fun p => p.name ++ ": " ++ p.type) ++ "): " ++
      m.result)
  simpa only [method, methodLines, methodLine, String.append_assoc] using hm

theorem ordinals_give (index : Nat) (ms : List EnumMember) :
    ∃ lines, Gives 1 ((ms.zipIdx index).mapM ordinal) lines ∧
      lines.flatten = ordinalLines index ms := by
  induction ms generalizing index with
  | nil => exact ⟨[], gives_pure [], rfl⟩
  | cons m ms ih =>
    obtain ⟨lines, hl, he⟩ := ih (index + 1)
    have hm := documented_gives m.doc
      (m.name ++ " = " ++ m.value.elim (toString index) EnumValue.text ++ ",")
    rw [List.zipIdx_cons, List.mapM_cons]
    refine ⟨_, hm.bind (hl.bind (gives_pure _)), ?_⟩
    simp [ordinalLines, he, String.append_assoc]

/-- The last alternative is the one whose position is `count - 1`. -/
theorem alternatives_give (count index : Nat) (texts : List String)
    (h : index + texts.length = count) :
    ∃ lines, Gives 1 ((texts.zipIdx index).mapM (alternative count)) lines ∧
      lines.flatten = unionMembers texts := by
  induction texts generalizing index with
  | nil => exact ⟨[], gives_pure [], rfl⟩
  | cons text texts ih =>
    rw [List.length_cons] at h
    obtain ⟨lines, hl, he⟩ := ih (index + 1) (by omega)
    have hm := documented_gives none (text ++ if index + 1 = count then ";" else " |")
    rw [List.zipIdx_cons, List.mapM_cons]
    refine ⟨_, hm.bind (hl.bind (gives_pure _)), ?_⟩
    cases texts with
    | nil =>
      have hc : index + 1 = count := h
      simp [unionMembers, hc, he, docLines, docBlock, String.append_assoc]
    | cons text' texts =>
      have hc : index + 1 ≠ count := by simp at h; omega
      simp [unionMembers, hc, he, docLines, docBlock, String.append_assoc]

/-! ## Declarations -/

/-- The members of a declaration between its first and its last line. -/
def block (text : Option String) (head : String) (members : Leveled (List (List String))) :
    Leveled (List String) := do
  let top ← doc text
  let lines ← deeper members
  return top ++ head :: lines.flatten ++ ["\x7d"]

theorem block_gives {members : Leveled (List (List String))} {lines : List (List String)}
    (text : Option String) (head : String) (h : Gives 1 members lines) :
    Gives 0 (block text head members) (docLines 0 text ++ head :: lines.flatten ++ ["\x7d"]) :=
  Gives.bind rfl (h.deeper.bind (gives_pure _))

/-- An empty union is one line and never raises the level. -/
def union (name : String) (members : List EnumMember) (text : Option String) :
    Leveled (List String) := do
  let top ← doc text
  if members.isEmpty then
    return top ++ ["export type " ++ name ++ " = never;"]
  let texts := members.map unionText
  let lines ← deeper (texts.zipIdx.mapM (alternative texts.length))
  return top ++ ("export type " ++ name ++ " =") :: lines.flatten

def declaration (options : RenderOptions) : Declaration → Leveled (List String)
  | .interface name fields text =>
    block text ("export interface " ++ name ++ " \x7b")
      ((ordered options.sortAlphabetically InterfaceField.name fields).mapM field)
  | .enumeration name members text =>
    if options.sumTypes then union name members text
    else block text ("export enum " ++ name ++ " \x7b") (members.zipIdx.mapM ordinal)
  | .trait name methods text =>
    block text ("export interface " ++ name ++ " \x7b")
      ((ordered options.sortAlphabetically Method.name methods).mapM method)

theorem union_gives (name : String) (members : List EnumMember) (text : Option String) :
    Gives 0 (union name members text) (unionLines name members text) := by
  cases members with
  | nil => rfl
  | cons m ms =>
    obtain ⟨lines, hl, he⟩ :=
      alternatives_give _ 0 ((m :: ms).map unionText) (Nat.zero_add _)
    have hu : unionLines name (m :: ms) text =
        docLines 0 text ++ ("export type " ++ name ++ " =") :: lines.flatten := by
      rw [he]
      rfl
    rw [hu]
    exact Gives.bind rfl (hl.deeper.bind (gives_pure _))

theorem declaration_gives (options : RenderOptions) (d : Declaration) :
    Gives 0 (declaration options d) (declarationLines options d) := by
  cases d with
  | interface name fields text =>
    have hf := gives_mapM (ordered options.sortAlphabetically InterfaceField.name fields)
      fun f _ => field_gives f
    exact block_gives text _ hf
  | trait name methods text =>
    have hm := gives_mapM (ordered options.sortAlphabetically Method.name methods)
      fun m _ => method_gives m
    exact block_gives text _ hm
  | enumeration name members text =>
    cases hu : options.sumTypes with
    | true =>
      simp only [declaration, declarationLines, hu, if_true]
      exact union_gives name members text
    | false =>
      obtain ⟨lines, hl, he⟩ := ordinals_give 0 members
      have hb := block_gives text ("export enum " ++ name ++ " \x7b") hl
      rw [he] at hb
      simp only [declaration, declarationLines, hu]
      exact hb

/-! ## Modules -/

def entry (options : RenderOptions) : Entry → Leveled (Except Scalar String)
  | .declaration d => do return .ok (unlines (← declaration options d) ++ "\n\n")
  | .foreign value => return .error value

theorem entry_gives (options : RenderOptions) (e : Entry) :
    Gives 0 (entry options e) (e.piece options) := by
  cases e with
  | declaration d => exact (declaration_gives options d).bind (gives_pure _)
  | foreign value => exact gives_pure _

end Leveled

end Ferrotype.Output
