import Ferrotype.Files.Tree
import Ferrotype.Proofs.Except
import Mathlib.Data.List.Basic

/-!
# What a write changes

Behind a write its path leads to the bytes. Elsewhere the tree is what it was, but for directories
where there was nothing.
-/

namespace Ferrotype.Files

variable {files files' : Files} {p : Path} {l l' : Location} {node : Node} {bytes : List UInt8}

/-! ## Nodes -/

/-- A node may only have become a directory. -/
def GrewAt (files files' : Files) (l : Location) : Prop :=
  files'.node? l = files.node? l ∨ files.node? l = none ∧ files'.node? l = some .directory

theorem GrewAt.refl (files : Files) (l : Location) : GrewAt files files l := .inl rfl

theorem GrewAt.trans {files'' : Files} (h : GrewAt files files' l) (h' : GrewAt files' files'' l) :
    GrewAt files files'' l := by
  obtain h | ⟨h, hd⟩ := h
  · rwa [GrewAt, ← h]
  · obtain h' | ⟨h', -⟩ := h'
    · exact .inr ⟨h, h'.trans hd⟩
    · rw [hd] at h'
      cases h'

end Ferrotype.Files
