import Ferrotype.Notice

/-! # Values with notices -/

namespace Ferrotype

/-- A value, and the notices that came with it, in order. -/
@[ext] structure Noted (α : Type) where
  value : α
  notices : List Notice

namespace Noted

def note (notice : Notice) : Noted Unit := ⟨(), [notice]⟩

instance : Monad Noted where
  pure a := ⟨a, []⟩
  bind x f := ⟨(f x.value).value, x.notices ++ (f x.value).notices⟩

@[simp] theorem notices_note (n : Notice) : (note n).notices = [n] := rfl

@[simp] theorem value_pure (a : α) : (pure a : Noted α).value = a := rfl

@[simp] theorem notices_pure (a : α) : (pure a : Noted α).notices = [] := rfl

@[simp] theorem value_bind (x : Noted α) (f : α → Noted β) :
    (x >>= f).value = (f x.value).value := rfl

@[simp] theorem notices_bind (x : Noted α) (f : α → Noted β) :
    (x >>= f).notices = x.notices ++ (f x.value).notices := rfl

instance : LawfulMonad Noted :=
  LawfulMonad.mk' Noted
    (fun x => by
      ext1
      · rfl
      · exact List.append_nil x.notices)
    (fun _ _ => rfl)
    (fun x _ _ => by
      ext1
      · rfl
      · exact List.append_assoc x.notices _ _)

theorem bind_cons (x : Noted α) (f : α → β) (bs : List β) (notices : List Notice) : (do
    let a ← x
    return f a :: (← ⟨bs, notices⟩) : Noted (List β)) =
      ⟨f x.value :: bs, x.notices ++ notices⟩ :=
  Noted.ext rfl (congrArg (x.notices ++ ·) (List.append_nil notices))

end Noted

end Ferrotype
