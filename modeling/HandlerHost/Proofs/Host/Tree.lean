import HandlerHost.Proofs.Host.Path
import HandlerHost.Host.FileSystem
import Mathlib.Data.List.Induction

/-!
Files as a tree. In a tree every name stands in a directory, so nothing is below a place where
nothing is. Where a path leads depends on the places it goes through, and these are all there.
-/
namespace HandlerHost.Host

variable {fs fs' : FileSystem} {cwd d p q : Place} {n m : Node} {name part path : String}
  {ps qs : List String} {t : Target}

/-- The place that a path leads to. -/
def Target.place : Target → Place
  | present p _ => p
  | vacant d name => d ++ [name]

namespace FileSystem

theorem lookup_filter (f : Place → Bool) (es : List (Place × Node)) :
    (es.filter fun e => f e.1).lookup q = if f q then es.lookup q else none := by
  induction es with
  | nil => simp
  | cons e es ih =>
    obtain ⟨p, n⟩ := e
    rw [List.filter_cons]
    by_cases hq : q = p
    · subst hq
      by_cases hf : f q = true
      · simp [hf]
      · simp [hf, ih]
    · have hb : (q == p) = false := beq_eq_false_iff_ne.mpr hq
      split
      · simp [List.lookup_cons, hb, ih]
      · simp [List.lookup_cons, hb, ih]

theorem lookup_of_ne (hq : q ≠ []) : fs.lookup q = fs.entries.lookup q := by
  rw [lookup, if_neg (by simpa using hq)]

theorem lookup_set (hp : p ≠ []) :
    (fs.set p n).lookup q = if q = p then some n else fs.lookup q := by
  by_cases hq : q = p
  · subst hq
    rw [if_pos rfl, lookup_of_ne hp, set, List.lookup_cons_self]
  · rw [if_neg hq]
    by_cases hroot : q = []
    · subst hroot
      rfl
    · have hb : (q == p) = false := beq_eq_false_iff_ne.mpr hq
      rw [lookup_of_ne hroot, lookup_of_ne hroot, set, List.lookup_cons, hb]
      have hf := lookup_filter (q := q) (fun e => e != p) fs.entries
      rw [if_pos (by simpa using hq)] at hf
      exact hf

theorem lookup_removeAll (hp : p ≠ []) :
    (fs.removeAll p).lookup q = if p <+: q then none else fs.lookup q := by
  by_cases hroot : q = []
  · subst hroot
    rw [if_neg (by simpa using hp)]
    rfl
  · rw [lookup_of_ne hroot, lookup_of_ne hroot, removeAll]
    have hf := lookup_filter (q := q) (fun e => !p.isPrefixOf e) fs.entries
    rw [hf]
    by_cases h : p <+: q
    · rw [if_neg (by simpa using h), if_pos h]
    · have hb : p.isPrefixOf q = false :=
        Bool.eq_false_iff.mpr fun hb => h (List.isPrefixOf_iff_prefix.mp hb)
      rw [if_pos (by rw [hb]; rfl), if_neg h]

/-- Every name stands in a directory. -/
def Sound (fs : FileSystem) : Prop :=
  ∀ d name n, fs.lookup (d ++ [name]) = some n → fs.lookup d = some .directory

theorem sound_empty : empty.Sound := by simp [Sound, lookup, empty]

theorem Sound.above (hs : fs.Sound) (hq : q <+: p) (hp : fs.lookup p = some n) :
    ∃ m, fs.lookup q = some m := by
  obtain ⟨rest, rfl⟩ := hq
  induction rest using List.reverseRecOn generalizing n with
  | nil => exact ⟨n, by rwa [List.append_nil] at hp⟩
  | append_singleton rest name ih =>
    rw [← List.append_assoc] at hp
    exact ih (hs _ _ _ hp)

/-- Nothing is below a place where nothing is. -/
theorem Sound.not_below (hs : fs.Sound) (hp : fs.lookup p = none) (hq : fs.lookup q = some n) :
    ¬ p <+: q := by
  intro h
  obtain ⟨m, hm⟩ := hs.above h hq
  rw [hp] at hm
  cases hm

theorem Sound.none_below (hs : fs.Sound) (hp : fs.lookup p = none) (hq : p <+: q) :
    fs.lookup q = none := by
  cases hl : fs.lookup q with
  | none => rfl
  | some n => exact absurd hq (hs.not_below hp hl)

theorem sound_set (hs : fs.Sound) (hd : fs.lookup d = some .directory)
    (hn : fs.lookup (d ++ [name]) ≠ some .directory) : (fs.set (d ++ [name]) n).Sound := by
  intro e x m he
  have hroot : d ++ [name] ≠ [] := by simp
  rw [lookup_set hroot] at he ⊢
  have hin : fs.lookup e = some .directory := by
    split at he
    · rename_i h
      rw [(List.append_inj' h rfl).1]
      exact hd
    · exact hs _ _ _ he
  rw [if_neg ?_]
  · exact hin
  · rintro rfl
    exact hn hin

/-- Files that differ at one place and below it only. -/
def SameOutside (p : Place) (fs fs' : FileSystem) : Prop :=
  ∀ q, ¬ p <+: q → fs'.lookup q = fs.lookup q

theorem SameOutside.refl : SameOutside p fs fs := fun _ _ => rfl

theorem SameOutside.trans {fs'' : FileSystem} (h : SameOutside p fs fs')
    (h' : SameOutside p fs' fs'') : SameOutside p fs fs'' :=
  fun q hq => (h' q hq).trans (h q hq)

theorem sameOutside_set (hp : q ≠ []) (h : p <+: q) : SameOutside p fs (fs.set q n) := by
  intro r hr
  rw [lookup_set hp, if_neg]
  rintro rfl
  exact hr h

/-- What is there is still there. -/
def Keeps (fs fs' : FileSystem) : Prop := ∀ p n, fs.lookup p = some n → fs'.lookup p = some n

/-- A part that leads one step down. -/
structure IsName (part : String) : Prop where
  ne_point : part ≠ "."
  ne_points : part ≠ ".."
  short : part.utf8ByteSize ≤ maxName

/-- Where the parts of a path lead from a place. -/
inductive Leads (fs : FileSystem) : Place → List String → Target → Prop
  | here {p : Place} {n : Node} (hp : fs.lookup p = some n) : Leads fs p [] (.present p n)
  | stay {p : Place} {part : String} {ps : List String} {t : Target}
      (hp : fs.lookup p = some .directory) (hn : part = ".") (h : Leads fs p ps t) :
      Leads fs p (part :: ps) t
  | up {p : Place} {part : String} {ps : List String} {t : Target}
      (hp : fs.lookup p = some .directory) (hn : part = "..") (h : Leads fs (above p) ps t) :
      Leads fs p (part :: ps) t
  | free {p : Place} {name : String} (hp : fs.lookup p = some .directory) (hn : IsName name)
      (hv : fs.lookup (p ++ [name]) = none) : Leads fs p [name] (.vacant p name)
  | down {p : Place} {name : String} {ps : List String} {t : Target}
      (hp : fs.lookup p = some .directory) (hn : IsName name)
      (h : Leads fs (p ++ [name]) ps t) : Leads fs p (name :: ps) t

theorem leads_of_follow (h : fs.follow p ps = .ok t) : fs.Leads p ps t := by
  fun_induction follow fs p ps with
  | case1 p n hp =>
    cases h
    exact .here hp
  | case2 => cases h
  | case3 => cases h
  | case4 => cases h
  | case5 => cases h
  | case6 p part rest hp hdot ih =>
    exact .stay hp (by simpa using hdot) (ih h)
  | case7 p part rest hp hdot hup ih =>
    exact .up hp (by simpa using hup) (ih h)
  | case8 => cases h
  | case9 p part hp hdot hup hlen hv =>
    cases h
    exact .free hp ⟨by simpa using hdot, by simpa using hup, by omega⟩ hv
  | case10 p part rest hp hdot hup hlen _ ih =>
    exact .down hp ⟨by simpa using hdot, by simpa using hup, by omega⟩ (ih h)

theorem follow_of_leads (h : fs.Leads p ps t) : fs.follow p ps = .ok t := by
  induction h with
  | here hp => simp [follow, hp]
  | stay hp hn _ ih => simp [follow, hp, hn, ih]
  | up hp hn _ ih => simp [follow, hp, hn, ih]
  | free hp hn hv => simp [follow, hp, hn.ne_point, hn.ne_points, Nat.not_lt.mpr hn.short, hv]
  | @down p name ps t hp hn h ih =>
    have hstep : fs.follow p (name :: ps) = fs.follow (p ++ [name]) ps := by
      cases hl : fs.lookup (p ++ [name]) with
      | some n => simp [follow, hp, hn.ne_point, hn.ne_points, Nat.not_lt.mpr hn.short, hl]
      | none =>
        cases ps with
        | nil =>
          cases h with
          | here hp' =>
            rw [hl] at hp'
            cases hp'
        | cons =>
          rw [follow]
          · simp [hp, hn.ne_point, hn.ne_points, Nat.not_lt.mpr hn.short]
          · simp
    rw [hstep, ih]

theorem follow_eq_ok : fs.follow p ps = .ok t ↔ fs.Leads p ps t :=
  ⟨leads_of_follow, follow_of_leads⟩

theorem Leads.present (h : fs.Leads q ps (.present p n)) : fs.lookup p = some n := by
  generalize ht : Target.present p n = t at h
  induction h with
  | here hp =>
    cases ht
    exact hp
  | free => cases ht
  | stay _ _ _ ih => exact ih ht
  | up _ _ _ ih => exact ih ht
  | down _ _ _ ih => exact ih ht

theorem Leads.vacant (h : fs.Leads q ps (.vacant d name)) :
    fs.lookup d = some .directory ∧ fs.lookup (d ++ [name]) = none := by
  generalize ht : Target.vacant d name = t at h
  induction h with
  | here => cases ht
  | free hp _ hv =>
    cases ht
    exact ⟨hp, hv⟩
  | stay _ _ _ ih => exact ih ht
  | up _ _ _ ih => exact ih ht
  | down _ _ _ ih => exact ih ht

/-- A path leads on to where it has led. -/
theorem Leads.keeps (hk : Keeps fs fs') (h : fs.Leads q ps (.present p n)) :
    fs'.Leads q ps (.present p n) := by
  generalize ht : Target.present p n = t at h ⊢
  induction h with
  | here hp => exact .here (hk _ _ hp)
  | stay hp hn _ ih => exact .stay (hk _ _ hp) hn (ih ht)
  | up hp hn _ ih => exact .up (hk _ _ hp) hn (ih ht)
  | free => cases ht
  | down hp hn _ ih => exact .down (hk _ _ hp) hn (ih ht)

/-- What a name in a directory leads to. -/
def target (fs : FileSystem) (d : Place) (name : String) : Target :=
  match fs.lookup (d ++ [name]) with
  | some n => .present (d ++ [name]) n
  | none => .vacant d name

theorem place_target : (fs.target d name).place = d ++ [name] := by
  unfold target
  split <;> rfl

theorem Leads.step (hd : fs.lookup d = some .directory) (hn : IsName name) :
    fs.Leads d [name] (fs.target d name) := by
  unfold target
  split
  · rename_i n hl
    exact .down hd hn (.here hl)
  · rename_i hl
    exact .free hd hn hl

/-- A path to a free name leads to whatever comes to be there, since it goes through no place that
is below. -/
theorem Leads.outside (hs : fs.Sound) (ho : SameOutside (d ++ [name]) fs fs')
    (h : fs.Leads q ps (.vacant d name)) : fs'.Leads q ps (fs'.target d name) := by
  have hv : fs.lookup (d ++ [name]) = none := h.vacant.2
  have hkeep : ∀ r n, fs.lookup r = some n → fs'.lookup r = some n := fun r n hr =>
    (ho r (hs.not_below hv hr)).trans hr
  generalize ht : Target.vacant d name = t at h
  induction h with
  | here => cases ht
  | stay hp hn _ ih => exact .stay (hkeep _ _ hp) hn (ih ht)
  | up hp hn _ ih => exact .up (hkeep _ _ hp) hn (ih ht)
  | free hp hn _ =>
    cases ht
    exact Leads.step (hkeep _ _ hp) hn
  | down hp hn _ ih => exact .down (hkeep _ _ hp) hn (ih ht)

theorem Leads.directory (h : fs.Leads p qs t) (hqs : qs ≠ []) : fs.lookup p = some .directory := by
  cases h with
  | here => exact absurd rfl hqs
  | stay hp _ _ => exact hp
  | up hp _ _ => exact hp
  | free hp _ _ => exact hp
  | down hp _ _ => exact hp

/-- The place that a part names, seen from another. -/
def next (p : Place) (part : String) : Place :=
  if part = "." then p else if part = ".." then above p else p ++ [part]

theorem next_point (hn : part = ".") : next p part = p := if_pos hn

theorem next_points (hn : part = "..") : next p part = above p := by simp [next, hn]

theorem next_name (hn : IsName part) : next p part = p ++ [part] := by
  simp [next, hn.ne_point, hn.ne_points]

/-- The parts after the first lead on from the place that it names. -/
theorem Leads.tail (h : fs.Leads p (part :: ps) t) (hps : ps ≠ []) :
    fs.Leads (next p part) ps t := by
  cases h with
  | stay _ hn h => rwa [next_point hn]
  | up _ hn h => rwa [next_points hn]
  | free => exact absurd rfl hps
  | down _ hn h => rwa [next_name hn]

/-- A path that goes on leads on from a directory that its first parts lead to. -/
theorem Leads.of_append {u : Target} (hu : fs.Leads q ps u) (h : fs.Leads q (ps ++ qs) t)
    (hqs : qs ≠ []) : ∃ p, u = .present p .directory ∧ fs.Leads p qs t := by
  have hrest : ∀ {ps : List String}, ps ++ qs ≠ [] := by simp [hqs]
  induction hu with
  | @here p n hp =>
    have hd := h.directory hqs
    rw [hp] at hd
    exact ⟨p, by rw [Option.some.inj hd], h⟩
  | stay _ hn _ ih =>
    have htail := h.tail hrest
    rw [next_point hn] at htail
    exact ih htail
  | up _ hn _ ih =>
    have htail := h.tail hrest
    rw [next_points hn] at htail
    exact ih htail
  | free _ hn hv =>
    -- Nothing leads on from a name that is free.
    have htail := h.tail hrest
    rw [next_name hn] at htail
    have hd := htail.directory hqs
    rw [hv] at hd
    cases hd
  | down _ hn _ ih =>
    have htail := h.tail hrest
    rw [next_name hn] at htail
    exact ih htail

theorem Leads.append (h : fs.Leads q ps (.present p n)) (ht : fs.Leads p qs t) :
    fs.Leads q (ps ++ qs) t := by
  generalize hu : Target.present p n = u at h
  induction h with
  | here =>
    cases hu
    exact ht
  | stay hp hn _ ih => exact .stay hp hn (ih hu)
  | up hp hn _ ih => exact .up hp hn (ih hu)
  | free => cases hu
  | down hp hn _ ih => exact .down hp hn (ih hu)

/-- The first parts of a path that goes on lead to a directory. -/
theorem Leads.split (h : fs.Leads q (ps ++ qs) t) (hqs : qs ≠ []) :
    ∃ p, fs.Leads q ps (.present p .directory) ∧ fs.Leads p qs t := by
  induction ps generalizing q with
  | nil => exact ⟨q, .here (h.directory hqs), h⟩
  | cons part ps ih =>
    rw [List.cons_append] at h
    generalize hrest : ps ++ qs = rest at h
    cases h with
    | stay hp hn h =>
      obtain ⟨p, hl, ht⟩ := ih (hrest ▸ h)
      exact ⟨p, .stay hp hn hl, ht⟩
    | up hp hn h =>
      obtain ⟨p, hl, ht⟩ := ih (hrest ▸ h)
      exact ⟨p, .up hp hn hl, ht⟩
    | free => exact absurd (List.append_eq_nil_iff.mp hrest).2 hqs
    | down hp hn h =>
      obtain ⟨p, hl, ht⟩ := ih (hrest ▸ h)
      exact ⟨p, .down hp hn hl, ht⟩

theorem Leads.unique {u : Target} (h : fs.Leads q ps t) (hu : fs.Leads q ps u) : t = u := by
  rw [← follow_eq_ok] at h hu
  exact Except.ok.inj (h.symm.trans hu)

/-- A single part that leads to a free name is that name. -/
theorem Leads.free_of_vacant (h : fs.Leads p [part] (.vacant d name)) :
    d = p ∧ name = part ∧ IsName part := by
  cases h with
  | stay _ _ h => cases h
  | up _ _ h => cases h
  | free _ hn _ => exact ⟨rfl, rfl, hn⟩
  | down _ _ h => cases h

theorem Leads.eq_target (hn : IsName name) (h : fs.Leads d [name] t) : t = fs.target d name := by
  unfold target
  cases h with
  | stay _ hdot _ => exact absurd hdot hn.ne_point
  | up _ hup _ => exact absurd hup hn.ne_points
  | free _ _ hv => rw [hv]
  | down _ _ h =>
    cases h with
    | here hp => rw [hp]

/-- The place where a path starts. -/
def origin (cwd : Place) (path : String) : Place := if Path.isAbsolute path then [] else cwd

/-- A path that leads somewhere can do so in other files too. -/
theorem leads_of_resolve (h : fs.resolve cwd path = .ok t) :
    fs.Leads (origin cwd path) (Path.parts path) t ∧
      ∀ {fs' : FileSystem} {u : Target}, fs'.Leads (origin cwd path) (Path.parts path) u →
        fs'.resolve cwd path = .ok u := by
  unfold resolve at h ⊢
  split at h
  · cases h
  rename_i hnul
  split at h
  · cases h
  rename_i hempty
  split at h
  · cases h
  rename_i hlen
  refine ⟨follow_eq_ok.mp h, fun hu => ?_⟩
  rw [if_neg hnul, if_neg hempty, if_neg hlen]
  exact follow_eq_ok.mpr hu

/-- A path that is not refused for what it looks like. -/
def Usable (cwd : Place) (path : String) : Prop :=
  ∀ {fs : FileSystem} {t : Target}, fs.Leads (origin cwd path) (Path.parts path) t →
    fs.resolve cwd path = .ok t

/-- A path to something is resolved, unless it is refused for what it looks like. -/
theorem resolve_of_leads (hp : path.isEmpty = false)
    (h : fs.Leads (origin cwd path) (Path.parts path) t) :
    fs.resolve cwd path = .ok t ∨ ∃ e, fs.resolve cwd path = .error e ∧ e ≠ .noEntry := by
  unfold resolve
  split
  · exact .inr ⟨_, rfl, nofun⟩
  rw [hp, if_neg (by simp)]
  split
  · exact .inr ⟨_, rfl, nofun⟩
  · exact .inl (follow_eq_ok.mpr h)

theorem resolve_keeps (hk : Keeps fs fs') (h : fs.resolve cwd path = .ok (.present p n)) :
    fs'.resolve cwd path = .ok (.present p n) :=
  have ⟨hl, hr⟩ := leads_of_resolve h
  hr (hl.keeps hk)

theorem stat_keeps (hk : Keeps fs fs') (h : fs.stat cwd path = .ok (p, n)) :
    fs'.stat cwd path = .ok (p, n) := by
  cases hr : fs.resolve cwd path with
  | error e => simp [stat, hr] at h
  | ok t =>
    cases t with
    | vacant d name => simp [stat, hr] at h
    | present q m =>
      simp only [stat, hr] at h
      simp only [stat, resolve_keeps hk hr]
      exact h

theorem resolve_outside (hs : fs.Sound) (ho : SameOutside (d ++ [name]) fs fs')
    (h : fs.resolve cwd path = .ok (.vacant d name)) :
    fs'.resolve cwd path = .ok (fs'.target d name) :=
  have ⟨hl, hr⟩ := leads_of_resolve h
  hr (hl.outside hs ho)

/-- An absolute path leads to the same from every working directory. -/
theorem stat_of_isAbsolute (h : Path.isAbsolute path = true) (cwd cwd' : Place) :
    fs.stat cwd path = fs.stat cwd' path := by
  simp only [stat, resolve, h, if_true]

theorem isFile_eq_true : fs.isFile cwd path = true ↔
    ∃ p content executable, fs.stat cwd path = .ok (p, .file content executable) := by
  unfold isFile
  split
  · rename_i p n hs
    cases n <;> simp [hs, Node.isFile]
  · rename_i e he
    simp [he]

/-- A path to something has no NUL in it. -/
theorem nul_notMem_of_stat (h : fs.stat cwd path = .ok (p, n)) : '\x00' ∉ path.toList := by
  intro hnul
  simp [stat, resolve, hnul] at h

/-- A name that is the only part of a path. -/
structure IsPlain (name : String) : Prop where
  relative : Path.isAbsolute name = false
  parts : Path.parts name = [name]
  isName : IsName name

/-- A name joined to a path leads into the directory that the path leads to. -/
theorem resolve_join {u : Target} (hn : IsPlain name) (hd : fs.resolve cwd path = .ok u)
    (h : fs.resolve cwd (Path.join path name) = .ok t) :
    ∃ p, u = .present p .directory ∧ t = fs.target p name := by
  have hl := (leads_of_resolve h).1
  rw [Path.parts_join hn.relative, hn.parts, origin, Path.isAbsolute_join hn.relative] at hl
  obtain ⟨p, hp, ht⟩ := (leads_of_resolve hd).1.of_append hl (by simp)
  exact ⟨p, hp, ht.eq_target hn.isName⟩

end FileSystem

end HandlerHost.Host
