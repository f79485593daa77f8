import HandlerHost.Proofs.Config.Validity
import HandlerHost.Proofs.Interpreter.Selection
import HandlerHost.Proofs.Request.Admission
import HandlerHost.Proofs.Text.Dictionary
import Mathlib

/-!
What an accepted configuration is good for. The commands may be visited in any order: the same
configurations are accepted. With one of them every request has a deadline within the bounds, every
language has a command with a program or none, and no command lies idle.
-/
namespace HandlerHost.Config

open Text (Entries)

variable {c : Config} {visited : Entries (List String)} {command : List String} {l : Language}
  {p : Payload} {r : Request} {a b : UInt64} {h : Host}

/-- The first defect that is found when the commands are visited in this order, after all else. -/
def defectVisiting? (c : Config) (visited : Entries (List String)) : Option Defect :=
  { c with interpreters := .empty }.defect?.or
    (visited.findSome? fun (id, command) => entryDefect? id command)

theorem defectVisiting?_entries : c.defectVisiting? c.interpreters.entries = c.defect? := by
  simp only [defectVisiting?, defect?]
  repeat (split; · rfl)
  rfl

/-- No order makes a difference to what is accepted. -/
theorem defectVisiting?_eq_none (hv : visited.Perm c.interpreters.entries) :
    c.defectVisiting? visited = none ↔ c.Valid := by
  rw [defectVisiting?, Option.or_eq_none_iff, defect?_eq_none, List.findSome?_eq_none_iff]
  constructor
  · rintro ⟨hlimits, hentries⟩
    refine { hlimits with entries := fun e he => ?_ }
    exact entryDefect?_eq_none.mp (hentries e (hv.mem_iff.mpr he))
  · intro hc
    refine ⟨{ hc with entries := fun e he => ?_ }, fun e he => ?_⟩
    · cases he
    · exact entryDefect?_eq_none.mpr (hc.entries e (hv.mem_iff.mp he))

/-- What a deadline is like, given what was asked for. -/
structure Deadline (c : Config) (requested : Option UInt64) (ms : UInt64) : Prop where
  pos : 0 < ms
  le_max : ms ≤ c.maxTimeoutMs
  as_asked : ∀ n, requested = some n → n ≤ c.maxTimeoutMs → ms = n
  by_default : requested = none → ms = c.defaultTimeoutMs

theorem effectiveTimeout_of_le (ha : a ≤ c.maxTimeoutMs) : c.effectiveTimeout (some a) = a :=
  if_pos ha

theorem effectiveTimeout_of_lt (ha : c.maxTimeoutMs < a) :
    c.effectiveTimeout (some a) = c.maxTimeoutMs :=
  if_neg (UInt64.not_le.mpr ha)

theorem effectiveTimeout_none (hc : c.Valid) : c.effectiveTimeout none = c.defaultTimeoutMs :=
  if_pos hc.default_le_max

/-- A request never asks for no time at all, and neither does the default. -/
theorem deadline_of_request (hc : c.Valid) (hr : Request.ofPayload p = .ok r) :
    c.Deadline p.timeoutMs (c.effectiveTimeout r.timeoutMs) := by
  obtain ⟨hp, hcarries⟩ := Request.ofPayload_ok hr
  rw [hcarries.timeout]
  cases ht : p.timeoutMs with
  | none =>
    rw [effectiveTimeout_none hc]
    exact ⟨hc.default_pos, hc.default_le_max, nofun, fun _ => rfl⟩
  | some n =>
    by_cases hn : n ≤ c.maxTimeoutMs
    · have hpos : 0 < n := UInt64.pos_iff_ne_zero.mpr fun hz => hp.timeout (hz ▸ ht)
      rw [effectiveTimeout_of_le hn]
      refine ⟨hpos, hn, ?_, nofun⟩
      rintro _ ⟨⟩ -
      rfl
    · rw [effectiveTimeout_of_lt (UInt64.not_le.mp hn)]
      refine ⟨hc.max_pos, UInt64.le_refl _, ?_, nofun⟩
      rintro _ ⟨⟩ hle
      exact absurd hle hn

/-- Who asks for more time gets no less. -/
theorem effectiveTimeout_mono (hab : a ≤ b) :
    c.effectiveTimeout (some a) ≤ c.effectiveTimeout (some b) := by
  by_cases hb : b ≤ c.maxTimeoutMs
  · rw [effectiveTimeout_of_le hb, effectiveTimeout_of_le (UInt64.le_trans hab hb)]
    exact hab
  · rw [effectiveTimeout_of_lt (UInt64.not_le.mp hb)]
    by_cases ha : a ≤ c.maxTimeoutMs
    · rwa [effectiveTimeout_of_le ha]
    · rw [effectiveTimeout_of_lt (UInt64.not_le.mp ha)]
      exact UInt64.le_refl _

/-- The command of a language is one that was configured. -/
theorem mem_of_commandFor (hl : c.commandFor l = some command) :
    (l.id, command) ∈ c.interpreters.entries := Entries.mem_of_find? hl

theorem commandFor_of_mem (he : (l.id, command) ∈ c.interpreters.entries) :
    c.commandFor l = some command :=
  (Entries.find?_eq_some c.interpreters.ascending).mpr he

/-- No language is left with a command that has no program. -/
theorem resolve_ne_emptyCommand (hc : c.Valid) :
    Interpreter.resolve h l (c.commandFor l) ≠ .error .emptyCommand := by
  rw [Ne, Interpreter.resolve_eq_emptyCommand]
  intro hl
  obtain ⟨program, args, hcommand, -⟩ := (hc.entries _ (mem_of_commandFor hl)).program
  cases hcommand

/-- A language is run with a program and arguments: a bare name is searched for, and a path has to
be a file. Nothing else is tried. -/
structure RunsWith (c : Config) (l : Language) (program : String) (args : List String) : Prop where
  searched : Host.Path.hasSlash program = false → ∀ h i,
    Interpreter.resolve h l (c.commandFor l) = .ok i ↔ Interpreter.IsFirst h [⟨program, args⟩] i
  literal : Host.Path.hasSlash program = true → ∀ h i,
    Interpreter.resolve h l (c.commandFor l) = .ok i ↔
      h.isFile program = true ∧ i = ⟨program, args⟩
  missing : ∀ h e, Interpreter.resolve h l (c.commandFor l) = .error e →
    e = .commandNotFound program

theorem runsWith_of_commandFor {program : String} {args : List String}
    (hl : c.commandFor l = some (program :: args)) : c.RunsWith l program args := by
  refine ⟨fun hb h i => ?_, fun hs h i => ?_, fun h e he => ?_⟩
  · rw [hl]
    exact Interpreter.resolve_bare_eq_ok hb
  · rw [hl]
    exact Interpreter.resolve_path_eq_ok hs
  · rw [hl] at he
    cases hs : Host.Path.hasSlash program with
    | false => exact ((Interpreter.resolve_bare_eq_error hs).mp he).2
    | true => exact ((Interpreter.resolve_path_eq_error hs).mp he).2

/-- Every command that was configured is one that a language is run with. -/
theorem exists_language_of_mem {id : String} (hc : c.Valid)
    (he : (id, command) ∈ c.interpreters.entries) :
    ∃ (l : Language) (program : String) (args : List String), l.id = id ∧
      command = program :: args ∧ c.commandFor l = some command ∧ c.RunsWith l program args := by
  obtain ⟨l, rfl⟩ := (hc.entries _ he).language
  obtain ⟨program, args, rfl, -⟩ := (hc.entries _ he).program
  have hl : c.commandFor l = some (program :: args) := commandFor_of_mem he
  exact ⟨l, program, args, rfl, rfl, hl, runsWith_of_commandFor hl⟩

/-- In whatever order the commands are visited, the valid configurations are accepted and no others.
With one that is accepted: the deadline of every request is positive and at most the maximum, it is
what was asked for if that is within the maximum and the default if nothing was asked for, and it
grows with what is asked for; no interpreter is refused for an empty command; and every configured
command is the one of a language, which is run with its program and its arguments. -/
theorem accepted_serves (c : Config) :
    (∀ visited, visited.Perm c.interpreters.entries →
      (c.defectVisiting? visited = none ↔ c.Valid)) ∧
      c.defectVisiting? c.interpreters.entries = c.defect? ∧
      (c.defect? = none →
        (∀ p r, Request.ofPayload p = .ok r →
          c.Deadline p.timeoutMs (c.effectiveTimeout r.timeoutMs)) ∧
        (∀ a b, a ≤ b → c.effectiveTimeout (some a) ≤ c.effectiveTimeout (some b)) ∧
        (∀ h l, Interpreter.resolve h l (c.commandFor l) ≠ .error .emptyCommand) ∧
        ∀ id command, (id, command) ∈ c.interpreters.entries →
          ∃ (l : Language) (program : String) (args : List String), l.id = id ∧
            command = program :: args ∧ c.commandFor l = some command ∧
            c.RunsWith l program args) := by
  refine ⟨fun visited => defectVisiting?_eq_none, defectVisiting?_entries, fun hd => ?_⟩
  have hc : c.Valid := defect?_eq_none.mp hd
  exact ⟨fun p r => deadline_of_request hc, fun a b => effectiveTimeout_mono,
    fun h l => resolve_ne_emptyCommand hc, fun id command => exists_language_of_mem hc⟩

/-- Commands that are visited backwards, a request for more time than there is, and one for as much
as there is. -/
theorem accepted_serves_backwards :
    let python := ("python", ["/opt/py", "-u"])
    let typescript := ("typescript", ["bun"])
    let c : Config := ⟨none, 900, 1000, 1, 0, .process, .ofList [python, typescript]⟩
    let p : Payload := ⟨"py", "x", .null, none, some 18446744073709551615⟩
    (c.defectVisiting? [typescript, python] = none ∧ c.Valid) ∧
      (∃ r, Request.ofPayload p = .ok r ∧ c.effectiveTimeout r.timeoutMs = 1000 ∧
        c.Deadline p.timeoutMs (c.effectiveTimeout r.timeoutMs)) ∧
      c.effectiveTimeout (some 999) ≤ c.effectiveTimeout (some 1001) ∧
      Interpreter.resolve ⟨⟨[]⟩, [], .empty⟩ .python (c.commandFor .python) ≠
        .error .emptyCommand ∧
      ∃ l : Language, l.id = "typescript" ∧ c.commandFor l = some ["bun"] := by
  intro python typescript c p
  have hentries : c.interpreters.entries = [python, typescript] := by decide
  have hd : c.defect? = none := by decide
  have hv : [typescript, python].Perm c.interpreters.entries := by
    rw [hentries]
    exact List.Perm.swap _ _ _
  obtain ⟨horder, -, hserves⟩ := accepted_serves c
  obtain ⟨hdeadline, hmono, hresolve, hcommand⟩ := hserves hd
  have hrequest : Request.ofPayload p = .ok ⟨.python, "x", .object [], "handler", p.timeoutMs⟩ := by
    have hl : Language.ofName? "py" = some .python := by cbv
    have hn : isIdentifier defaultHandler = true := by decide
    simp only [Request.ofPayload, p, hl, Option.getD_none, hn]
    rfl
  have hnone : c.defectVisiting? [typescript, python] = none := by decide
  obtain ⟨l, program, args, hl, -, hbun, -⟩ :=
    hcommand "typescript" ["bun"] (by rw [hentries]; simp [typescript])
  exact ⟨⟨hnone, (horder _ hv).mp hnone⟩, ⟨_, hrequest, by decide, hdeadline p _ hrequest⟩,
    hmono 999 1001 (by decide), hresolve _ _, l, hl, hbun⟩

end HandlerHost.Config
