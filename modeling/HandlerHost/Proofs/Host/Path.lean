import HandlerHost.Host.Path

/-! What a joined path leads through, and where it starts. -/
namespace HandlerHost.Host.Path

variable {path dir name : String}

theorem isAbsolute_iff : isAbsolute path = true ↔ ∃ cs, path.toList = '/' :: cs := by
  rw [isAbsolute, String.startsWith_string_iff]
  exact ⟨fun ⟨cs, h⟩ => ⟨cs, h.symm⟩, fun ⟨cs, h⟩ => ⟨cs, h.symm⟩⟩

theorem not_isAbsolute (h : path.toList.head? ≠ some '/') : isAbsolute path = false := by
  apply Bool.eq_false_iff.mpr
  intro ha
  obtain ⟨cs, hcs⟩ := isAbsolute_iff.mp ha
  rw [hcs] at h
  exact h rfl

theorem hasSlash_of_isAbsolute (h : isAbsolute path = true) : hasSlash path = true := by
  obtain ⟨cs, hcs⟩ := isAbsolute_iff.mp h
  simp [hasSlash, hcs]

theorem eq_append_slash (h : path.endsWith "/" = true) : ∃ dir, path = dir ++ "/" ++ "" := by
  rw [← String.endsWith_toSlice, String.Slice.endsWith_string_iff, String.copy_toSlice] at h
  obtain ⟨cs, hcs⟩ := h
  refine ⟨String.ofList cs, String.toList_injective ?_⟩
  simp [← hcs]

/-- Each part stands in the path as it is. -/
theorem infix_of_mem_parts {part : String} (h : part ∈ parts path) :
    part.toList <:+: path.toList := by
  have hsep : ∀ {l : List Char} {ls : List (List Char)}, l ∈ ls → l ∈ ls.intersperse ['/'] := by
    intro l ls hl
    induction ls with
    | nil => cases hl
    | cons m ls ih =>
      cases ls with
      | nil => exact hl
      | cons m' ls =>
        rcases List.mem_cons.mp hl with rfl | hl
        · exact List.mem_cons_self
        · exact List.mem_cons_of_mem _ (List.mem_cons_of_mem _ (ih hl))
  obtain ⟨l, hl, rfl⟩ := List.mem_map.mp (List.mem_filter.mp h).1
  have hjoined : ['/'].intercalate (path.toList.splitOn '/') = path.toList :=
    List.intercalate_splitOn '/'
  rw [String.toList_ofList, ← hjoined]
  exact List.infix_of_mem_flatten (hsep hl)

theorem parts_empty : parts "" = [] := by decide

/-- A slash stands between parts. -/
theorem parts_slash (dir name : String) :
    parts (dir ++ "/" ++ name) = parts dir ++ parts name := by
  have hs : (dir ++ "/" ++ name).toList = dir.toList ++ '/' :: name.toList := by simp
  rw [parts, hs, List.splitOn_append_cons_self, List.map_append, List.filter_append, ← parts,
    ← parts]

/-- The parts of a joined path are those of the directory and then those of the name. -/
theorem parts_join (h : isAbsolute name = false) :
    parts (join dir name) = parts dir ++ parts name := by
  rw [join, if_neg (by simp [h])]
  split
  · rename_i hd
    rcases Bool.or_eq_true_iff.mp hd with hd | hd
    · obtain rfl : dir = "" := String.isEmpty_iff.mp hd
      rw [parts_empty, String.empty_append, List.nil_append]
    · obtain ⟨around, rfl⟩ := eq_append_slash hd
      rw [parts_slash, parts_empty, List.append_nil, String.append_empty, parts_slash]
  · exact parts_slash dir name

/-- A joined path starts where its directory does. -/
theorem isAbsolute_join (h : isAbsolute name = false) :
    isAbsolute (join dir name) = isAbsolute dir := by
  rw [join, if_neg (by simp [h])]
  cases hd : dir.toList with
  | nil =>
    obtain rfl : dir = "" := String.toList_injective hd
    exact h
  | cons c cs =>
    apply Bool.eq_iff_iff.mpr
    rw [isAbsolute_iff, isAbsolute_iff, hd]
    split <;> simp [hd]

end HandlerHost.Host.Path
