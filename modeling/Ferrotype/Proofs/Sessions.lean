import Ferrotype.Proofs.Schema.Accounts
import Ferrotype.Session
import Mathlib.Data.List.DropRight

/-!
# A session keeps nothing but its notices

What a session replies to a source does not depend on what it was asked before. Its notices are
those that each request since the last clearing would have left alone, also of a run that fails:
of that one, what was noted before the fault.
-/

namespace Ferrotype

/-! ## Sources -/

/-- What a text comes to, and the notices on the way: the declarations, or the first error. -/
def outcomeOf (options : ExtractOptions) (source : String) : Noted (Except ExtractError Schema) :=
  match SourceFile.ofText source with
  | .error error => ⟨.error (.source error), []⟩
  | .ok file =>
    ⟨(Step.firstFault (file.items.flatMap Item.steps)).elim
        (.ok ((file.items.filterMap Item.declared?).foldl Schema.put [])) .error,
      options.flagsSet.map .reservedOption ++ Step.noticesOf (file.items.flatMap Item.steps)⟩

theorem extract_run (options : ExtractOptions) (source : String) :
    (extract options source).run = outcomeOf options source := by
  unfold outcomeOf
  cases h : SourceFile.ofText source with
  | error error => exact extract_of_error h
  | ok file =>
    rw [extract_of_file h]
    exact extractFile_run options file

/-- The first variant is noted, and the second one ends the run. -/
example : (extract {} "enum E \x7b A = 1 + 1, B = 9223372036854775808, C = -1 \x7d").run.notices =
    [.discriminantIgnored "A" "E" (some 1)] := by
  decide +kernel

namespace Session

/-! ## Requests -/

/-- The session behind requests, one after the other. -/
def after (s : Session) (rs : List Request) : Session := rs.foldl (fun s r => (s.step r).2) s

/-- The notices that a request leaves in a new session. -/
def Request.own (options : Options) (r : Request) : List Notice :=
  ((start options false).step r).2.notices

def Request.isClear : Request → Bool
  | .clear => true
  | _ => false

/-- The requests behind the last one that clears. -/
def sinceClear (rs : List Request) : List Request := rs.rtakeWhile fun r => !r.isClear

/-! ## Runs -/

/-- The reply to a run: what it shows of the declarations, or the error. -/
def Reply.ofResult (shown : Schema → Reply) : Except ExtractError Schema → Reply
  | .ok declarations => shown declarations
  | .error error => .failed error

/-- A run only adds its own notices, whether it fails or not. -/
theorem step_extract (s : Session) (source : String) :
    s.step (.extract source) =
      (.ofResult .schema (outcomeOf s.options.extract source).value,
        { s with notices := s.notices ++ (outcomeOf s.options.extract source).notices }) := by
  rw [← extract_run, step, finish]
  cases (extract s.options.extract source).run.value <;> rfl

theorem step_transpile (s : Session) (source : String) :
    s.step (.transpile source) =
      (.ofResult (fun schema => .output (Output.moduleText s.options.render schema))
          (outcomeOf s.options.extract source).value,
        { s with notices := s.notices ++ (outcomeOf s.options.extract source).notices }) := by
  have ht : Ferrotype.transpile s.options source =
      Output.moduleText s.options.render <$> extract s.options.extract source := bind_pure_comp _ _
  rw [← extract_run, step, finish, ht, Extraction.run_map]
  cases (extract s.options.extract source).run.value <;> rfl

/-! ## Notices -/

theorem step_of_not_clear (s : Session) {r : Request} (h : r.isClear = false) :
    (s.step r).2 = { s with notices := s.notices ++ r.own s.options } := by
  cases r with
  | clear => cases h
  | transpile source => rw [Request.own, step_transpile, step_transpile]; rfl
  | extract source => rw [Request.own, step_extract, step_extract]; rfl
  | summary | print | list => simp [Request.own, step, start]

theorem after_eq (options : Options) (verbose : Bool) (rs : List Request) :
    (start options verbose).after rs =
      ⟨options, verbose, (sinceClear rs).flatMap (Request.own options)⟩ := by
  -- From the last request: one that clears starts anew, any other one adds its own notices.
  induction rs using List.reverseRecOn with
  | nil => rfl
  | append_singleton rs r ih =>
    have hs : (start options verbose).after (rs ++ [r]) =
        (((start options verbose).after rs).step r).2 := List.foldl_concat ..
    rw [hs, ih]
    cases hc : r.isClear with
    | true =>
      have hn : sinceClear (rs ++ [r]) = [] := List.rtakeWhile_concat_neg _ _ _ (by simp [hc])
      obtain rfl : r = .clear := by cases r <;> first | rfl | cases hc
      rw [hn]
      rfl
    | false =>
      have hn : sinceClear (rs ++ [r]) = sinceClear rs ++ [r] :=
        List.rtakeWhile_concat_pos _ _ _ (by simp [hc])
      rw [hn, step_of_not_clear _ hc, List.flatMap_append, List.flatMap_singleton]

/--
Behind any requests, failed ones too, a session has its options and the notices that each request
since the last clearing leaves in a new session. It replies to a source as a new session does. Of a
source that fails, the notices are those before the fault, and none if it cannot be read.
-/
theorem after_requests (options : Options) (verbose : Bool) (rs : List Request) :
    (start options verbose).after rs =
        ⟨options, verbose, (sinceClear rs).flatMap (Request.own options)⟩ ∧
      ∀ (source : String) (fresh : Bool),
        (((start options verbose).after rs).step (.extract source)).1 =
            ((start options fresh).step (.extract source)).1 ∧
          (((start options verbose).after rs).step (.transpile source)).1 =
            ((start options fresh).step (.transpile source)).1 ∧
          (start options fresh).step (.extract source) =
            (.ofResult .schema (outcomeOf options.extract source).value,
              ⟨options, fresh, (outcomeOf options.extract source).notices⟩) ∧
          (start options fresh).step (.transpile source) =
            (.ofResult (fun schema => .output (Output.moduleText options.render schema))
                (outcomeOf options.extract source).value,
              ⟨options, fresh, (outcomeOf options.extract source).notices⟩) := by
  have ha := after_eq options verbose rs
  refine ⟨ha, fun source fresh => ?_⟩
  rw [ha]
  refine ⟨?_, ?_, step_extract _ source, step_transpile _ source⟩
  · rw [step_extract, step_extract]
    rfl
  · rw [step_transpile, step_transpile]
    rfl

end Session

end Ferrotype
