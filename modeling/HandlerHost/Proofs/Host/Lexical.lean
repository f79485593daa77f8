import HandlerHost.Proofs.Host.Tree

/-!
Where a path leads by its text alone. Empty parts are none, a point stays where it is, and two
points go one directory up. Files without links bear this out: whatever an absolute path leads to
stands at the place that its text names.
-/
namespace HandlerHost.Host

variable {fs : FileSystem} {cwd p q : Place} {path dir name part : String} {ps : List String}
  {t : Target}

namespace Path

open FileSystem (next)

/-- The place that a text names, from the root. -/
def lexical (path : String) : Place := (parts path).foldl next []

/-- An absolute path that leads straight down. -/
structure Normal (path : String) : Prop where
  absolute : isAbsolute path = true
  names : ∀ part ∈ parts path, part ≠ "." ∧ part ≠ ".."

theorem foldl_next_of_names (h : ∀ part ∈ ps, part ≠ "." ∧ part ≠ "..") :
    ps.foldl next p = p ++ ps := by
  induction ps generalizing p with
  | nil => simp
  | cons part ps ih =>
    obtain ⟨hpoint, hpoints⟩ := h part List.mem_cons_self
    have hn : next p part = p ++ [part] := by simp [next, hpoint, hpoints]
    rw [List.foldl_cons, hn, ih fun part hp => h part (List.mem_cons_of_mem _ hp)]
    simp

/-- Without two points nothing leads up. -/
theorem prefix_foldl_next (h : ".." ∉ ps) : p <+: ps.foldl next p := by
  induction ps generalizing p with
  | nil => exact List.prefix_refl p
  | cons part ps ih =>
    rw [List.mem_cons, not_or] at h
    have hstep : p <+: next p part := by
      unfold next
      split
      · exact List.prefix_refl p
      · rw [if_neg (Ne.symm h.1)]
        exact List.prefix_append _ _
    exact hstep.trans (ih h.2)

theorem lexical_of_normal (h : Normal path) : lexical path = parts path := by
  rw [lexical, foldl_next_of_names h.names, List.nil_append]

/-- A name below a directory is followed from there. -/
theorem lexical_join (h : isAbsolute name = false) :
    lexical (join dir name) = (parts name).foldl next (lexical dir) := by
  rw [lexical, parts_join h, List.foldl_append, lexical]

end Path

namespace FileSystem

theorem Leads.place_eq (h : fs.Leads q ps t) : t.place = ps.foldl next q := by
  induction h with
  | here => rfl
  | stay _ hn _ ih => rw [List.foldl_cons, next_point hn, ih]
  | up _ hn _ ih => rw [List.foldl_cons, next_points hn, ih]
  | free _ hn _ => rw [List.foldl_cons, next_name hn, List.foldl_nil, Target.place]
  | down _ hn _ ih => rw [List.foldl_cons, next_name hn, ih]

theorem place_of_resolve (ha : Path.isAbsolute path = true) (h : fs.resolve cwd path = .ok t) :
    t.place = Path.lexical path := by
  have hl := (leads_of_resolve h).1
  rw [origin, if_pos ha] at hl
  exact hl.place_eq

end FileSystem

end HandlerHost.Host
