import Mathlib
import HandlerHost.Invoker.Operation
import HandlerHost.Proofs.Request.Admission
import HandlerHost.Proofs.Wire.Defaults
import HandlerHost.Proofs.Workspace.Housing

/-!
What a handler finds in its directory. The files of a request are written one after the other into
the empty directory of its workspace. When all are written the directory holds the source, the
runner and the event, and nothing else; when a write fails it holds the files before that one, and
of that one no more than a part.
-/
namespace HandlerHost.Workspace

open Host (Errno FileSystem Node Place)
open Host.FileSystem (IsPlain)
open Invoker (Operation)
open Json (Value)
open Payload (Sent)
open Payload.Sent (Plain)

variable {h h' : Host} {root name content : String} {id : WorkspaceId} {w : Workspace}
  {base : FileSystem} {d home : Place} {r : Request} {files todo : List (String × String)}
  {out : Except Error Unit} {x : Home}

/-- Files that are written one after the other until one fails. Each write is attempted, and may
fail for a reason from outside the files. One that fails may leave a part of its text behind. -/
inductive Writing (w : Workspace) :
    Host → List (String × String) → Host → Except Error Unit → Prop
  | done {h : Host} : Writing w h [] h (.ok ())
  | written {h h₁ h₂ : Host} {name content : String} {rest : List (String × String)}
      {out : Except Error Unit} {fault : Option Errno}
      (hw : (Operation.write w name content).attempt h fault = (h₁, .ok ()))
      (hr : Writing w h₁ rest h₂ out) : Writing w h ((name, content) :: rest) h₂ out
  | failed {h h₁ : Host} {name content : String} {rest : List (String × String)} {e : Error}
      {fault : Option Errno}
      (hw : (Operation.write w name content).attempt h fault = (h₁, .error e)) :
      Writing w h ((name, content) :: rest) h₁ (.error e)
  | torn {h h₁ h₂ : Host} {name content part : String} {rest : List (String × String)} {e : Error}
      {fault : Option Errno} (hpart : part ≠ content) (hp : w.writeFile h name part = (h₁, .ok ()))
      (hw : (Operation.write w name content).attempt h₁ fault = (h₂, .error e)) :
      Writing w h ((name, content) :: rest) h₂ (.error e)

theorem writing_writeFiles :
    Writing w h files (w.writeFiles h files).1 (w.writeFiles h files).2 := by
  induction files generalizing h with
  | nil => exact .done
  | cons f files ih =>
    obtain ⟨name, content⟩ := f
    rw [writeFiles]
    split
    · rename_i h₁ hw
      have hw : (Operation.write w name content).attempt h none = (h₁, .ok ()) := hw
      exact .written hw ih
    · rename_i h₁ e hw
      have hw : (Operation.write w name content).attempt h none = (h₁, .error e) := hw
      exact .failed hw

theorem isSafeName_artifacts : ∀ f ∈ artifacts r, isSafeName f.1 = true := by
  have hevent : isSafeName Runner.eventFile = true := by cbv
  have hsource : isSafeName r.language.sourceFile = true := by cases r.language <;> cbv
  have hrunner : isSafeName r.language.runnerFile = true := by cases r.language <;> cbv
  simp [artifacts, hsource, hrunner, hevent]

/-- A write that succeeds has been carried out. -/
theorem writeFile_of_attempt {fault : Option Errno}
    (hw : (Operation.write w name content).attempt h fault = (h', .ok ())) :
    w.writeFile h name content = (h', .ok ()) := by
  cases fault with
  | some e => cases hw
  | none => exact hw

/-- A write of a safe name that fails leaves the files as they are. -/
theorem attempt_error {fault : Option Errno} {e : Error} (hs : isSafeName name = true)
    (hw : (Operation.write w name content).attempt h fault = (h', .error e)) :
    h' = h ∧ ∃ errno, e = .write (Host.Path.join w.path name) errno := by
  cases fault with
  | some errno =>
    cases hw
    exact ⟨rfl, errno, rfl⟩
  | none =>
    have hw : w.writeFile h name content = (h', .error e) := hw
    rw [writeFile, filePath, if_pos hs] at hw
    dsimp only at hw
    split at hw
    · cases (Prod.mk.inj hw).2
    · cases hw
      exact ⟨rfl, _, rfl⟩

/-- The directory holds some files and nothing else. -/
def Holds (h : Host) (w : Workspace) (files : List (String × String)) : Prop :=
  ∃ home, h.files.stat h.cwd w.path = .ok (home, .directory) ∧
    ∀ rest node, rest ≠ [] → (h.files.lookup (home ++ rest) = some node ↔
      ∃ f ∈ files, rest = [f.1] ∧ node = .file f.2 false)

/-- What is left of a file whose write has failed: nothing, or a text that is not the whole one. -/
def Remains (f : String × String) (files : List (String × String)) : Prop :=
  files = [] ∨ ∃ part, part ≠ f.2 ∧ files = [(f.1, part)]

/-- The files that are there after some writes. -/
inductive Left (w : Workspace) (r : Request) : Except Error Unit → List (String × String) → Prop
  | all : Left w r (.ok ()) (artifacts r)
  | some {before after remains : List (String × String)} {f : String × String} {e : Errno}
      (ha : artifacts r = before ++ f :: after) (hr : Remains f remains) :
      Left w r (.error (.write (Host.Path.join w.path f.1) e)) (before ++ remains)

theorem left_of_writing {homes : Homes} {n : Nat} (hw : Writing (under root id) h todo h' out)
    (hh : Housed root base d homes h) (hx : homes n = some ⟨id.directoryName, files⟩)
    (ha : artifacts r = files ++ todo) :
    ∃ homes' left, Housed root base d homes' h' ∧
      homes' n = some ⟨id.directoryName, left⟩ ∧ Left (under root id) r out left := by
  induction hw generalizing homes files with
  | done =>
    rw [List.append_nil] at ha
    exact ⟨homes, files, hh, hx, ha ▸ .all⟩
  | @written h h₁ h₂ name content rest out fault hw _ ih =>
    have hplain : IsPlain name := isPlain_artifacts (name, content) (by rw [ha]; simp)
    have hd : Deed root id n homes h _ h₁ :=
      .write hx hplain (lookup_of_artifacts ha) (writeFile_of_attempt hw)
    refine ih (hd.housed hh) (Function.update_self ..) ?_
    rw [ha, List.append_assoc, List.singleton_append]
  | @failed h h₁ name content rest e fault hw =>
    have hsafe : isSafeName name = true := isSafeName_artifacts (name, content) (by rw [ha]; simp)
    obtain ⟨rfl, errno, rfl⟩ := attempt_error hsafe hw
    refine ⟨homes, files, hh, hx, ?_⟩
    have hleft := Left.some (w := under root id) (e := errno) ha (.inl rfl)
    rwa [List.append_nil] at hleft
  | @torn h h₁ h₂ name content part rest e fault hpart hp hw =>
    have hmem : (name, content) ∈ artifacts r := by rw [ha]; simp
    have hd : Deed root id n homes h _ h₁ :=
      .write hx (isPlain_artifacts _ hmem) (lookup_of_artifacts ha) hp
    obtain ⟨rfl, errno, rfl⟩ := attempt_error (isSafeName_artifacts _ hmem) hw
    exact ⟨_, _, hd.housed hh, Function.update_self .., .some ha (.inr ⟨part, hpart, rfl⟩)⟩

/-- A workspace that has just been made is a home without files. -/
theorem housed_create (hs : h.files.Sound) (hc : create h root id = (h', .ok w)) :
    w = under root id ∧ ∃ base d, Housed root base d
      (Function.update (fun _ => none) 0 (some ⟨id.directoryName, []⟩)) h' := by
  unfold create at hc
  split at hc
  · cases (Prod.mk.inj hc).2
  · rename_i h₁ hroot
    have hw : w = under root id := by
      have hc' := hc
      unfold createDirectory at hc'
      dsimp only at hc'
      split at hc'
      · exact (Except.ok.inj (Prod.mk.inj hc').2).symm
      · cases (Prod.mk.inj hc').2
    have hsound : h₁.files.Sound := by
      obtain ⟨fs, hfs, hprovides⟩ := provides_createRoot root hs
      rw [hroot] at hfs
      obtain rfl : h₁ = { h with files := fs } := hfs
      exact hprovides.sound
    obtain rfl := hw
    obtain ⟨d, hrooted, -⟩ := createDirectory_ok hc
    have hd : Deed root id 0 (fun _ => none) h₁ _ h' := .make rfl hc
    exact ⟨rfl, h₁.files, d, hd.housed (housed_none hsound hrooted)⟩

theorem Left.nodup (hl : Left w r out files) : (files.map Prod.fst).Nodup := by
  have hnodup := nodup_artifacts r
  cases hl with
  | all => exact hnodup
  | @some before after remains f e ha hr =>
    rw [ha, List.map_append, List.map_cons] at hnodup
    have hsub : (remains.map Prod.fst).Sublist (f.1 :: after.map Prod.fst) := by
      obtain rfl | ⟨part, -, rfl⟩ := hr
      · exact List.nil_sublist _
      · exact (List.nil_sublist _).cons_cons _
    rw [List.map_append]
    exact hnodup.sublist (hsub.append_left _)

theorem holds_of_housed {homes : Homes} {n : Nat} (hh : Housed root base d homes h)
    (hx : homes n = some ⟨id.directoryName, files⟩) (hn : (files.map Prod.fst).Nodup) :
    Holds h (under root id) files := by
  have hstat := hh.stat hx
  dsimp only at hstat
  refine ⟨_, hstat, fun rest node hrest => ?_⟩
  rw [List.append_assoc, List.singleton_append, hh.inside n _ hx]
  exact Home.node?_iff_mem hn hrest

/-- A file of the request is there as a whole. -/
def Complete (h : Host) (w : Workspace) (f : String × String) : Prop :=
  ∃ home, h.files.stat h.cwd w.path = .ok (home, .directory) ∧
    h.files.lookup (home ++ [f.1]) = some (.file f.2 false)

theorem complete_iff (hh : Holds h w files) {f : String × String} : Complete h w f ↔ f ∈ files := by
  obtain ⟨home, hstat, hfiles⟩ := hh
  constructor
  · rintro ⟨home', hstat', hl⟩
    obtain ⟨rfl, -⟩ := Prod.mk.inj (Except.ok.inj (hstat.symm.trans hstat'))
    obtain ⟨g, hg, hname, hnode⟩ := (hfiles [f.1] _ (by simp)).mp hl
    obtain ⟨hcontent, -⟩ := Node.file.inj hnode
    rwa [Prod.ext (List.singleton_inj.mp hname) hcontent]
  · exact fun hf => ⟨home, hstat, (hfiles [f.1] _ (by simp)).mpr ⟨f, hf, rfl, rfl⟩⟩

/-- What is left of a file is not the file of that name. -/
theorem mem_remains {before after remains : List (String × String)} {f g : String × String}
    (ha : artifacts r = before ++ f :: after) (hr : Remains f remains) (hg : g ∈ artifacts r) :
    g ∈ before ++ remains ↔ g ∈ before := by
  rw [List.mem_append, or_iff_left]
  intro hrest
  obtain rfl | ⟨part, hpart, rfl⟩ := hr
  · cases hrest
  · obtain rfl := List.mem_singleton.mp hrest
    have hf : (artifacts r).lookup f.1 = some f.2 :=
      (lookup_iff_mem (nodup_artifacts r)).mpr (by rw [ha]; simp)
    have hp : (artifacts r).lookup f.1 = some part :=
      (lookup_iff_mem (nodup_artifacts r)).mpr hg
    exact hpart (Option.some.inj (hp.symm.trans hf))

/-- The directory after some writes: all files and nothing else, or, when one has failed, the files
before it as a whole and no others. -/
theorem contents_of_writing {h₁ h₂ : Host} (hs : h.files.Sound)
    (hc : create h root id = (h₁, .ok w)) (hw : Writing w h₁ (artifacts r) h₂ out) :
    (out = .ok () → Holds h₂ w (artifacts r)) ∧
      ∀ e, out = .error e → ∃ before f after errno, artifacts r = before ++ f :: after ∧
        e = .write (Host.Path.join w.path f.1) errno ∧
        ∀ g ∈ artifacts r, Complete h₂ w g ↔ g ∈ before := by
  obtain ⟨rfl, base, d, hh⟩ := housed_create hs hc
  obtain ⟨homes, files, hh₂, hx, hleft⟩ :=
    left_of_writing hw hh (Function.update_self ..) (List.nil_append _).symm
  have hholds : Holds h₂ (under root id) files := holds_of_housed hh₂ hx hleft.nodup
  cases hleft with
  | all => exact ⟨fun _ => hholds, nofun⟩
  | @some before after remains f errno ha hrest =>
    refine ⟨nofun, fun e he => ⟨before, f, after, errno, ha, (Except.error.inj he).symm, ?_⟩⟩
    intro g hg
    rw [complete_iff hholds, mem_remains ha hrest hg]

/-- The event that a handler is given: what was sent, or an empty object instead of nothing and of
null. -/
def eventOf (s : Sent) : Value :=
  match s.event with
  | none => .emptyObject
  | some v => if v.isNull then .emptyObject else v

theorem plain_emptyObject : Plain .emptyObject :=
  ⟨.object List.Pairwise.nil nofun, .object trivial nofun, by decide⟩

theorem plain_eventOf {s : Sent} (h : ∀ v ∈ s.event, Plain v) : Plain (eventOf s) := by
  unfold eventOf
  split
  · exact plain_emptyObject
  · rename_i v hv
    split
    · exact plain_emptyObject
    · exact h v hv

theorem read_plain {v : Value} (h : Plain v) : Value.read v.compact = .ok v :=
  Value.read_compact_of_canonical h.canonical h.exact (Nat.le_succ_of_le h.shallow)

theorem request_of_sent {s : Sent} (hr : Request.ofPayload s.payload = .ok r) :
    Language.ofName? s.runtime = some r.language ∧ artifacts r =
      [("handler." ++ r.language.extension, s.code),
        (r.language.runnerFile, Runner.script r.language (s.handler.getD defaultHandler)),
        ("event.json", (eventOf s).compact)] := by
  obtain ⟨-, hc⟩ := Request.ofPayload_ok hr
  refine ⟨Language.ofName?_eq_some.mpr hc.runtime, ?_⟩
  have hhandler : r.handler = s.handler.getD defaultHandler := by
    cases hh : s.handler with
    | none => exact hc.handler.1 hh
    | some name => exact hc.handler.2 name hh
  have hevent : r.event = eventOf s := by
    obtain ⟨hnull, hother⟩ := hc.event
    unfold eventOf
    cases he : s.event with
    | none => simpa [Sent.payload, he, Value.emptyObject] using hother
    | some v =>
      simp only [Sent.payload, he, Option.getD_some] at hnull hother
      cases v <;> simp_all [Value.isNull, Value.emptyObject]
  rw [artifacts, hc.code, hhandler, hevent]
  rfl

/-- What a caller sends is what the handler finds. The text of a payload, which may leave its event
out, is decoded as the payload. If that is accepted, three files of different names are written into
the workspace that has been made: the code as it is, the script for the handler, and a text that is
read as the event. When all writes succeed these files are in the directory and nothing else; when
one fails, with the error of that write, the files before it are there as a whole and no others. -/
theorem contents_as_sent {s : Sent} {h₁ : Host} (hevent : ∀ v ∈ s.event, Plain v)
    (hr : Request.ofPayload s.payload = .ok r) (hs : h.files.Sound)
    (hc : create h root id = (h₁, .ok w)) :
    Json.decode Payload.decoder s.toValue.compact = .ok s.payload ∧
    Language.ofName? s.runtime = some r.language ∧
    (∃ event, Value.read event = .ok (eventOf s) ∧ artifacts r =
      [("handler." ++ r.language.extension, s.code),
        (r.language.runnerFile, Runner.script r.language (s.handler.getD defaultHandler)),
        ("event.json", event)]) ∧
    ((artifacts r).map Prod.fst).Nodup ∧
    Writing w h₁ (artifacts r) (w.writeArtifacts h₁ r).1 (w.writeArtifacts h₁ r).2 ∧
    ∀ h₂ out, Writing w h₁ (artifacts r) h₂ out →
      (out = .ok () → Holds h₂ w (artifacts r)) ∧
      ∀ e, out = .error e → ∃ before f after errno, artifacts r = before ++ f :: after ∧
        e = .write (Host.Path.join w.path f.1) errno ∧
        ∀ g ∈ artifacts r, Complete h₂ w g ↔ g ∈ before := by
  obtain ⟨hlanguage, hfiles⟩ := request_of_sent hr
  exact ⟨Sent.decode_compact hevent, hlanguage, ⟨_, read_plain (plain_eventOf hevent), hfiles⟩,
    nodup_artifacts r, writing_writeFiles, fun h₂ out hw => contents_of_writing hs hc hw⟩

/-- Blanks around the code are kept, and an event that was left out is an empty object. -/
theorem contents_as_sent_untrimmed :
    let h : Host := ⟨.empty, [], .empty⟩
    let w : Workspace := under "/w" ⟨0⟩
    ∃ h₁ r event, create h "/w" ⟨0⟩ = (h₁, .ok w) ∧ Value.read event = .ok .emptyObject ∧
      Holds (w.writeArtifacts h₁ r).1 w [("handler.py", " x\n"),
        ("runner.py", Runner.script .python defaultHandler), ("event.json", event)] := by
  intro h w
  let s : Sent := ⟨"python", " x\n", none, none, none⟩
  let r : Request := ⟨.python, " x\n", .emptyObject, defaultHandler, none⟩
  have hlanguage : Language.ofName? "python" = some .python := by cbv
  have hrequest : Request.ofPayload s.payload = .ok r := by
    have hname : isIdentifier defaultHandler = true := by decide
    simp only [Request.ofPayload, s, Sent.payload, hlanguage, Option.getD_none, hname]
    rfl
  have hcreate : create h "/w" ⟨0⟩ = ((create h "/w" ⟨0⟩).1, .ok w) := by decide +kernel
  obtain ⟨-, -, ⟨event, hread, hfiles⟩, -, hwrites, hleft⟩ :=
    contents_as_sent (fun v hv => by cases hv) hrequest Host.FileSystem.sound_empty hcreate
  have hwritten : (w.writeArtifacts (create h "/w" ⟨0⟩).1 r).2 = .ok () := by decide +kernel
  have hholds := (hleft _ _ hwrites).1 hwritten
  rw [hfiles] at hholds
  exact ⟨_, r, event, hcreate, hread, hholds⟩

end HandlerHost.Workspace
