import Ferrotype.Files.Tree
import Mathlib.Data.List.Basic

/-!
# Paths as texts

A path that is written as a text and read again is the same path, so that what stands under a path
is also what is read under its text.
-/

namespace Ferrotype

namespace Text

variable {separator : Char}

theorem splitAtChar_eq_splitOn (separator : Char) (s : List Char) :
    splitAtChar separator s = s.splitOn separator := by
  induction s with
  | nil => simp [splitAtChar]
  | cons c s ih =>
    rw [splitAtChar, ih, List.splitOn_cons_eq_if_modifyHead]
    cases hs : s.splitOn separator with
    | nil => exact absurd hs (List.splitOn_ne_nil _ _)
    | cons part parts => simp

theorem splitAtChar_intercalate {parts : List (List Char)} (h : ∀ part ∈ parts, separator ∉ part)
    (hn : parts ≠ []) : splitAtChar separator ([separator].intercalate parts) = parts := by
  rw [splitAtChar_eq_splitOn, List.splitOn_intercalate separator h hn]

theorem splitAtChar_self (separator : Char) (s : List Char) :
    splitAtChar separator (separator :: s) = [] :: splitAtChar separator s := by
  simp [splitAtChar_eq_splitOn, List.splitOn_cons_eq_if_modifyHead]

theorem not_mem_of_mem_splitAtChar {s part : List Char} (h : part ∈ splitAtChar separator s) :
    separator ∉ part := by
  induction s generalizing part with
  | nil =>
    obtain rfl : part = [] := by simpa [splitAtChar] using h
    simp
  | cons c s ih =>
    rw [splitAtChar] at h
    split at h
    · next hs => exact absurd (splitAtChar_eq_splitOn separator s ▸ hs) (List.splitOn_ne_nil _ _)
    · next first parts hs =>
      rw [hs, List.forall_mem_cons] at ih
      split at h
      · obtain rfl | h := List.mem_cons.1 h
        · simp
        · obtain rfl | h := List.mem_cons.1 h
          · exact ih.1
          · exact ih.2 part h
      · next hc =>
        obtain rfl | h := List.mem_cons.1 h
        · simpa [Ne.symm hc] using ih.1
        · exact ih.2 part h

end Text

namespace Path

/-- Every part is a name. -/
def Normal (p : Path) : Prop := ∀ name ∈ p.parts, name ≠ "" ∧ name ≠ "." ∧ '/' ∉ name.toList

variable {p : Path}

theorem normal_ofString (text : String) : (ofString text).Normal := by
  intro name h
  obtain ⟨hm, hf⟩ := List.mem_filter.1 h
  obtain ⟨part, hp, rfl⟩ := List.mem_map.1 hm
  simp only [Bool.and_eq_true, bne_iff_ne, ne_eq] at hf
  refine ⟨hf.1, hf.2, ?_⟩
  rw [String.toList_ofList]
  exact Text.not_mem_of_mem_splitAtChar hp

theorem toList_toText (hn : p.parts ≠ []) : p.toText.toList =
    (if p.absolute then ['/'] else []) ++ ['/'].intercalate (p.parts.map String.toList) := by
  obtain ⟨absolute, parts⟩ := p
  obtain ⟨name, names, rfl⟩ := List.exists_cons_of_ne_nil hn
  cases absolute <;> simp [toText]

theorem split_toText (h : p.Normal) (hn : p.parts ≠ []) :
    Text.splitAtChar '/' p.toText.toList =
      (if p.absolute then [[]] else []) ++ p.parts.map String.toList := by
  have hs : Text.splitAtChar '/' (['/'].intercalate (p.parts.map String.toList)) =
      p.parts.map String.toList := by
    refine Text.splitAtChar_intercalate ?_ (by simpa using hn)
    exact List.forall_mem_map.2 fun name hm => (h name hm).2.2
  rw [toList_toText hn]
  split
  · rw [List.singleton_append, Text.splitAtChar_self, hs, List.singleton_append]
  · rw [List.nil_append, hs, List.nil_append]

/-- Only an absolute path starts with a slash. -/
theorem head?_toText (h : p.Normal) (hn : p.parts ≠ []) :
    p.toText.toList.head? = some '/' ↔ p.absolute = true := by
  obtain ⟨absolute, parts⟩ := p
  obtain ⟨name, names, rfl⟩ := List.exists_cons_of_ne_nil hn
  obtain ⟨he, -, hs⟩ := h name (by simp)
  obtain ⟨c, t, hc⟩ := List.exists_cons_of_ne_nil fun hl => he (String.toList_inj.1 hl)
  have hc' : c ≠ '/' := by
    rintro rfl
    simp [hc] at hs
  rw [toList_toText hn]
  cases absolute with
  | true => simp
  | false => cases names <;> simp [hc, hc']

theorem ofString_toText (h : p.Normal) : ofString p.toText = p := by
  by_cases hn : p.parts = []
  · obtain ⟨absolute, parts⟩ := p
    obtain rfl : parts = [] := hn
    cases absolute <;> decide
  · have hf : p.parts.filter (fun name => name != "" && name != ".") = p.parts :=
      List.filter_eq_self.2 fun name hm => by simp [(h name hm).1, (h name hm).2.1]
    have hm : (p.parts.map String.toList).map String.ofList = p.parts := by
      simp [Function.comp_def]
    have hr : ((if p.absolute then [[]] else []).map String.ofList).filter
        (fun name => name != "" && name != ".") = [] := by
      split
      · decide
      · rfl
    have hp : (ofString p.toText).parts = p.parts := by
      rw [ofString, split_toText h hn, List.map_append, List.filter_append, hm, hf, hr,
        List.nil_append]
    have ha : (ofString p.toText).absolute = p.absolute := by
      simp [ofString, head?_toText h hn]
    obtain ⟨absolute, parts⟩ := p
    exact (Path.mk.injEq ..).mpr ⟨ha, hp⟩

end Path

namespace Files

variable {files : Files} {p : Path} {bytes : List UInt8}

/-- A path that ends in a name may mean a file. -/
theorem meansDirectory_toText (h : p.Normal) (hn : p.parts ≠ []) :
    meansDirectory p.toText = false := by
  have hl : (Text.splitAtChar '/' p.toText.toList).getLast? =
      some (p.parts.getLast hn).toList := by
    rw [Path.split_toText h hn, List.getLast?_append]
    simp [List.getLast?_eq_some_getLast hn]
  obtain ⟨he, hd, -⟩ := h _ (List.getLast_mem hn)
  unfold meansDirectory
  rw [hl]
  split
  · next hs => exact absurd (String.toList_inj.1 (Option.some.inj hs)) he
  · next hs => exact absurd (String.toList_inj.1 (Option.some.inj hs)) hd
  · rfl

theorem isAnchor_startOf (p : Path) : isAnchor (startOf p) = true := by
  unfold startOf
  split <;> rfl

/-- Under no names there is a directory. -/
theorem parts_ne_nil_of_file (h : files.find? p = some (.file bytes)) : p.parts ≠ [] := by
  intro hn
  have hd : files.node? (startOf p) = some .directory := if_pos (isAnchor_startOf p)
  rw [find?, locate, hn, walk] at h
  cases hd.symm.trans h

/-- What stands under a path is read under its text. -/
theorem read_of_find? (hp : p.Normal) (h : files.find? p = some (.file bytes)) :
    files.read p.toText = .ok bytes := by
  have hm := meansDirectory_toText hp (parts_ne_nil_of_file h)
  rw [find?] at h
  rw [read, Path.ofString_toText hp]
  split at h
  · next l hl => simp only [hl, h, hm, Bool.false_eq_true, if_false]
  · cases h

end Files

end Ferrotype
