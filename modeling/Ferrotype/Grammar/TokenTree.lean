import Ferrotype.Grammar.Fault

/-!
# Token trees

A token tree is one token that is no delimiter, or a group: an opener, token trees, and the
closer of the same kind. Reading over a tree takes a stack of openers and one pass.
-/

namespace Ferrotype.Grammar

/-- Reads up to the closer of the last of `openers`, the innermost of which is first. -/
def closeGroup : List Token → List Token → Except GrammarFault (List Token)
  | [], ts => .ok ts
  | opener :: _, [] => .error (.unclosed opener)
  | opener :: outer, t :: ts =>
    match t.kind with
    | .opener _ => closeGroup (t :: opener :: outer) ts
    | .closer d =>
      if opener.kind = .opener d then closeGroup outer ts else .error (.mismatched opener t)
    | _ => closeGroup (opener :: outer) ts

def dropTree : List Token → Except GrammarFault (List Token)
  | [] => .error .unexpectedFinish
  | t :: ts =>
    match t.kind with
    | .closer _ => .error (.unexpectedCloser t)
    | .opener _ => closeGroup [t] ts
    | _ => .ok ts

theorem closeGroup_length {openers ts rest : List Token} (h : closeGroup openers ts = .ok rest) :
    rest.length ≤ ts.length := by
  fun_induction closeGroup openers ts with
  | case1 => cases h; exact Nat.le_refl _
  | case2 | case5 => cases h
  | case3 _ _ _ _ _ _ ih | case4 _ _ _ _ _ _ _ ih | case6 _ _ _ _ _ _ ih =>
    exact Nat.le_succ_of_le (ih h)

/-- A token tree is never empty. -/
theorem dropTree_length {ts rest : List Token} (h : dropTree ts = .ok rest) :
    rest.length < ts.length := by
  unfold dropTree at h
  split at h
  · cases h
  · split at h
    · cases h
    · exact Nat.lt_succ_of_le (closeGroup_length h)
    · cases h; exact Nat.lt_succ_self _

/-- Reads over token trees up to a token of a class. -/
def dropTreesUntil (stop : Kind → Bool) (ts : List Token) : Except GrammarFault (List Token) :=
  match ts with
  | [] => .error .unexpectedFinish
  | t :: ts =>
    if stop t.kind then .ok (t :: ts)
    else match _h : dropTree (t :: ts) with
      | .error fault => .error fault
      | .ok rest => dropTreesUntil stop rest
termination_by ts.length
decreasing_by exact dropTree_length _h

/--
Reads over the bounds and the default of a generic parameter, up to a comma or to the mark that
closes the list. `depth` counts the angle brackets that are open.
-/
def dropParameterRest (depth : Nat) (ts : List Token) : Except GrammarFault (List Token) :=
  match ts with
  | [] => .error .finishInParameters
  | t :: ts =>
    if depth = 0 ∧ (t.kind = .punct .comma ∨ t.kind = .punct .gt) then .ok (t :: ts)
    else if t.kind = .punct .lt then dropParameterRest (depth + 1) ts
    else if t.kind = .punct .gt then dropParameterRest (depth - 1) ts
    else match _h : dropTree (t :: ts) with
      | .error fault => .error fault
      | .ok rest => dropParameterRest depth rest
termination_by ts.length
decreasing_by
  · simp
  · simp
  · exact dropTree_length _h

end Ferrotype.Grammar
