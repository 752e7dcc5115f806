import ChannelPreset.Command.Basic
import ChannelPreset.Proofs.Files.Looking
import ChannelPreset.Proofs.Files.Tree

/-!
# Effects of the Steps of a Command

Which steps of a command leave the machine as it is, and which ones only print and cannot give up.
Making the directories of an output path consists of asking what a path names and of making one
directory, so that what holds of these holds of it as well (`Command.makeDirectories_induction`).
Nothing happens at all when the directory is there already.
-/

namespace ChannelPreset

namespace Machine

/-- Whether two machines have the same files, whatever they have printed. -/
def SameFiles (s s' : Machine) : Prop :=
  s'.tree = s.tree ∧ s'.current = s.current

theorem SameFiles.refl (s : Machine) : SameFiles s s :=
  ⟨rfl, rfl⟩

theorem SameFiles.symm {s s' : Machine} (h : SameFiles s s') : SameFiles s' s :=
  ⟨h.1.symm, h.2.symm⟩

theorem SameFiles.trans {s₁ s₂ s₃ : Machine} (h₁ : SameFiles s₁ s₂) (h₂ : SameFiles s₂ s₃) :
    SameFiles s₁ s₃ :=
  ⟨h₂.1.trans h₁.1, h₂.2.trans h₁.2⟩

/-- Whether an operation leaves the files as they are. -/
def OnlyPrints {α : Type} (operation : StateM Machine α) : Prop :=
  ∀ s, SameFiles s (operation.run s).2

theorem OnlyLooks.onlyPrints {α : Type} {operation : StateM Machine α} (h : OnlyLooks operation) :
    OnlyPrints operation := by
  intro s
  rw [h s]
  exact .refl s

theorem OnlyPrints.bind {α β : Type} {operation : StateM Machine α} {next : α → StateM Machine β}
    (h : OnlyPrints operation) (hnext : ∀ a, OnlyPrints (next a)) :
    OnlyPrints (operation >>= next) :=
  fun _ => (h _).trans (hnext _ _)

theorem onlyPrints_report (text : String) : OnlyPrints (host.report text) :=
  fun _ => ⟨rfl, rfl⟩

theorem OnlyPrints.forM {α : Type} {f : α → StateM Machine PUnit} (h : ∀ a, OnlyPrints (f a))
    (as : List α) : OnlyPrints (as.forM f) := by
  induction as with
  | nil => exact (OnlyLooks.pure _).onlyPrints
  | cons a as ih => exact (h a).bind fun _ => ih

theorem run_bind {α β : Type} (operation : StateM Machine α) (next : α → StateM Machine β)
    (s : Machine) :
    (operation >>= next).run s = (next (operation.run s).1).run (operation.run s).2 :=
  rfl

theorem change_ok {f : Machine → Except HostError FileTree} {s : Machine} {tree : FileTree}
    (h : f s = .ok tree) : (change f).run s = (.ok (), { s with tree }) := by
  have hrun : (change f).run s = change f s := rfl
  rw [hrun, change, h]

theorem change_error {f : Machine → Except HostError FileTree} {s : Machine} {e : HostError}
    (h : f s = .error e) : (change f).run s = (.error e, s) := by
  have hrun : (change f).run s = change f s := rfl
  rw [hrun, change, h]

section Changing

variable {s : Machine} {tree : FileTree} {e : HostError} {path : String} {content : Bytes}

theorem run_makeDirectory_ok (h : s.tree.makeDirectory s.current path = .ok tree) :
    (host.makeDirectory path).run s = (.ok (), { s with tree }) :=
  change_ok (f := fun s => s.tree.makeDirectory s.current path) h

theorem run_makeDirectory_error (h : s.tree.makeDirectory s.current path = .error e) :
    (host.makeDirectory path).run s = (.error e, s) :=
  change_error (f := fun s => s.tree.makeDirectory s.current path) h

theorem run_writeFile_ok (h : s.tree.writeFile s.current path content = .ok tree) :
    (host.writeFile path content).run s = (.ok (), { s with tree }) :=
  change_ok (f := fun s => s.tree.writeFile s.current path content) h

theorem run_writeFile_error (h : s.tree.writeFile s.current path content = .error e) :
    (host.writeFile path content).run s = (.error e, s) :=
  change_error (f := fun s => s.tree.writeFile s.current path content) h

end Changing

/-- Whether a machine has everything that another one has, and runs in the same directory. -/
structure Grows (s s' : Machine) : Prop where
  current_eq : s'.current = s.current
  keeps : FileTree.Keeps s.tree s'.tree
  closed : s.tree.Closed → s'.tree.Closed

/-- Whether an operation loses nothing, and does the same on machines with the same files. -/
structure OnlyMakes {α : Type} (operation : StateM Machine α) : Prop where
  grows : ∀ s, Grows s (operation.run s).2
  same : ∀ s t, SameFiles s t → (operation.run t).1 = (operation.run s).1 ∧
    SameFiles (operation.run s).2 (operation.run t).2

namespace OnlyMakes

variable {α β : Type}

theorem pure (a : α) : OnlyMakes (pure a : StateM Machine α) where
  grows _ := ⟨rfl, .refl _, id⟩
  same _ _ h := ⟨rfl, h⟩

theorem bind {operation : StateM Machine α} {next : α → StateM Machine β}
    (h : OnlyMakes operation) (hnext : ∀ a, OnlyMakes (next a)) :
    OnlyMakes (operation >>= next) where
  grows s := by
    have h₁ := h.grows s
    have h₂ := (hnext (operation.run s).1).grows (operation.run s).2
    exact ⟨h₂.current_eq.trans h₁.current_eq, h₁.keeps.trans h₂.keeps, h₂.closed ∘ h₁.closed⟩
  same s t hst := by
    obtain ⟨hresult, hfiles⟩ := h.same s t hst
    rw [run_bind, run_bind, hresult]
    exact (hnext _).same _ _ hfiles

theorem kind (path : String) : OnlyMakes (host.kind path) where
  grows s := ⟨rfl, .refl _, id⟩
  same s t h := by
    refine ⟨?_, h⟩
    have hrun : ∀ s : Machine, ((host.kind path).run s).1 = s.tree.kind s.current path :=
      fun _ => rfl
    rw [hrun, hrun, h.1, h.2]

theorem makeDirectory (path : String) : OnlyMakes (host.makeDirectory path) where
  grows s := by
    cases hs : s.tree.makeDirectory s.current path with
    | ok tree =>
      rw [run_makeDirectory_ok hs]
      obtain ⟨directory, name, hdirectory, hnone, rfl⟩ := FileTree.makeDirectory_eq_ok hs
      exact ⟨rfl, .insert hnone _, fun hclosed => hclosed.insert hdirectory hnone _⟩
    | error e =>
      rw [run_makeDirectory_error hs]
      exact ⟨rfl, .refl _, id⟩
  same s t h := by
    have heq : t.tree.makeDirectory t.current path = s.tree.makeDirectory s.current path := by
      rw [h.1, h.2]
    cases hs : s.tree.makeDirectory s.current path with
    | ok tree =>
      rw [run_makeDirectory_ok hs, run_makeDirectory_ok (heq.trans hs)]
      exact ⟨rfl, rfl, h.2⟩
    | error e =>
      rw [run_makeDirectory_error hs, run_makeDirectory_error (heq.trans hs)]
      exact ⟨rfl, h⟩

end OnlyMakes

end Machine

namespace Command

open Machine

variable {α β : Type} {s s' : Machine}

/-! ## Running steps -/

theorem run_bind_ok {step : Step (StateM Machine) α} {next : α → Step (StateM Machine) β} {a : α}
    (h : step.run.run s = (.ok a, s')) : (step >>= next).run.run s = (next a).run.run s' := by
  have hrun : (step >>= next).run.run s = (ExceptT.bindCont next (step.run.run s).1).run
      (step.run.run s).2 := rfl
  rw [hrun, h]
  rfl

theorem run_bind_error {step : Step (StateM Machine) α} {next : α → Step (StateM Machine) β}
    {failure : Failure} (h : step.run.run s = (.error failure, s')) :
    (step >>= next).run.run s = (.error failure, s') := by
  have hrun : (step >>= next).run.run s = (ExceptT.bindCont next (step.run.run s).1).run
      (step.run.run s).2 := rfl
  rw [hrun, h]
  rfl

theorem run_always (operation : StateM Machine α) (s : Machine) :
    (always operation).run.run s = (.ok (operation.run s).1, (operation.run s).2) :=
  rfl

theorem run_realPath (path : String) (s : Machine) :
    (host.realPath path).run s = ((s.tree.resolve s.current path).map FileTree.text, s) :=
  rfl

theorem attempt_ok {operation : StateM Machine (Except HostError α)} {a : α} (context : String)
    (h : operation.run s = (.ok a, s')) :
    (attempt context operation).run.run s = (.ok a, s') := by
  unfold attempt
  rw [ExceptT.run_mk, run_bind, h]
  rfl

theorem attempt_error {operation : StateM Machine (Except HostError α)} {e : HostError}
    (context : String) (h : operation.run s = (.error e, s')) :
    (attempt context operation).run.run s = (.error (.ofHost context e), s') := by
  unfold attempt
  rw [ExceptT.run_mk, run_bind, h]
  rfl

/-- A step of a command that leaves the machine as it is. -/
def Looks (step : Step (StateM Machine) α) : Prop :=
  OnlyLooks step.run

theorem Looks.bind {step : Step (StateM Machine) α} {next : α → Step (StateM Machine) β}
    (h : Looks step) (hnext : ∀ a, Looks (next a)) : Looks (step >>= next) := by
  rw [Looks, ExceptT.run_bind]
  refine OnlyLooks.bind h fun result => ?_
  cases result with
  | ok a => exact hnext a
  | error failure => exact .pure _

theorem looks_always {operation : StateM Machine α} (h : OnlyLooks operation) :
    Looks (always operation) :=
  h.bind fun _ => .pure _

theorem looks_attempt {operation : StateM Machine (Except HostError α)} (context : String)
    (h : OnlyLooks operation) : Looks (attempt context operation) := by
  refine h.bind fun result => ?_
  cases result <;> exact .pure _

theorem looks_resolveInput (text : String) : Looks (resolveInput host text) := by
  unfold resolveInput
  split
  · exact OnlyLooks.pure _
  · split
    · exact OnlyLooks.pure _
    · refine (looks_always (Pattern.onlyLooks_paths _)).bind fun paths =>
        (looks_always (.filterM (fun path => ?_) paths)).bind fun files => OnlyLooks.pure _
      exact (OnlyLooks.look _).bind fun _ => .pure _

theorem looks_checkInput (input : String) : Looks (checkInput host input) := by
  refine (looks_always (OnlyLooks.look _)).bind fun kind => ?_
  split <;> exact OnlyLooks.pure _

theorem looks_inputFile (text : String) : Looks (inputFile host text) :=
  (looks_resolveInput text).bind fun input =>
    (looks_checkInput input).bind fun _ => OnlyLooks.pure _

theorem looks_checkDistinct (input output : String) : Looks (checkDistinct host input output) := by
  refine (looks_attempt _ (OnlyLooks.look _)).bind fun source =>
    (looks_always (OnlyLooks.look _)).bind fun result => ?_
  split
  · exact OnlyLooks.pure _
  · split
    · exact OnlyLooks.pure _
    · split
      · exact OnlyLooks.pure _
      · exact OnlyLooks.pure _

/-! ## Printing -/

/-- A step of a command that leaves the files as they are. -/
def Prints (step : Step (StateM Machine) α) : Prop :=
  OnlyPrints step.run

/-- A step of a command that leaves the files as they are and cannot give up. -/
def Tells (step : Step (StateM Machine) Unit) : Prop :=
  ∀ s, ∃ s', step.run.run s = (.ok (), s') ∧ SameFiles s s'

theorem Tells.prints {step : Step (StateM Machine) Unit} (h : Tells step) : Prints step := by
  intro s
  obtain ⟨s', hrun, hsame⟩ := h s
  have hstate : (step.run.run s).2 = s' := congrArg Prod.snd hrun
  rw [← hstate] at hsame
  exact hsame

theorem Tells.bind {step : Step (StateM Machine) Unit} {next : Unit → Step (StateM Machine) Unit}
    (h : Tells step) (hnext : Tells (next ())) : Tells (step >>= next) := by
  intro s
  obtain ⟨s₁, hrun, hsame⟩ := h s
  obtain ⟨s₂, hrun', hsame'⟩ := hnext s₁
  exact ⟨s₂, (run_bind_ok hrun).trans hrun', hsame.trans hsame'⟩

theorem tells_tell (verbosity : Nat) (events : List Event) : Tells (tell host verbosity events) :=
  fun _ => ⟨_, rfl, OnlyPrints.forM (fun _ => onlyPrints_report _) _ _⟩

theorem tells_print (text : String) : Tells (always (host.print text)) :=
  fun s => ⟨{ s with output := s.output ++ text }, rfl, rfl, rfl⟩

theorem tells_confirm (quiet : Bool) (text : String) : Tells (confirm host quiet text) := by
  intro s
  cases quiet
  · exact ⟨_, rfl, onlyPrints_report _ s⟩
  · exact ⟨s, rfl, .refl s⟩

/-- A file is read as a whole, and what it holds is decoded. -/
theorem exists_load {content : Bytes} (verbosity : Nat) {input : String}
    (h : s.tree.readFile s.current input = .ok content) :
    ∃ result s', (load host verbosity input).run.run s = (result, s') ∧ SameFiles s s' ∧
      ∀ preset, result = .ok preset ↔ Preset.decode content = .ok preset := by
  -- reading looks at the file, and telling about it leaves the files as they are
  have hread : (attempt s!"Failed to read input file: {input}" (host.readFile input)).run.run s =
      (.ok content, s) := by
    apply attempt_ok
    have hlook : (host.readFile input).run s = (s.tree.readFile s.current input, s) := rfl
    rw [hlook, h]
  obtain ⟨s', htell, hfiles⟩ :=
    tells_tell verbosity (.fileRead content.length input :: Preset.events content) s
  unfold load
  rw [run_bind_ok hread, run_bind_ok htell]
  cases Preset.decode content with
  | ok preset => exact ⟨_, s', rfl, hfiles, fun preset => by simp⟩
  | error e => exact ⟨_, s', rfl, hfiles, fun preset => by simp⟩

/-! ## Making directories -/

section Induction

variable {P : {α : Type} → StateM Machine α → Prop}
  (hpure : ∀ {α : Type} (a : α), P (pure a : StateM Machine α))
  (hbind : ∀ {α β : Type} {operation : StateM Machine α} {next : α → StateM Machine β},
    P operation → (∀ a, P (next a)) → P (operation >>= next))
  (hkind : ∀ path, P (host.kind path)) (hmake : ∀ path, P (host.makeDirectory path))

include hpure hbind hkind hmake

/-- What holds of asking what a path names, of making one directory, and of operations one after the
other, holds of making directories. -/
theorem makeDirectories_induction (depth : Nat) (path : String) :
    P (makeDirectories host depth path) := by
  have hsettle : ∀ path result, P (makeDirectories.settle host path result) := by
    intro path result
    cases result with
    | ok _ => exact hpure _
    | error e =>
      refine hbind (hkind path) fun _ => ?_
      split <;> exact hpure _
  -- the induction is on the depth, since each parent is made with one level less
  induction depth generalizing path with
  | zero => exact hpure _
  | succ depth ih =>
    rw [makeDirectories]
    refine hbind (hmake path) fun result => ?_
    split
    · exact hpure _
    split
    · split
      · exact hpure _
      · refine hbind ?_ fun result => ?_
        · split
          · exact hpure _
          · exact ih _
        · split
          · exact hpure _
          · exact hbind (hmake path) (hsettle path)
    · exact hsettle _ _

end Induction

theorem makeDirectories_of_resolve {place : Location} {path : String} (depth : Nat)
    (h : s.tree.resolve s.current path = .ok place) :
    ((makeDirectories host (depth + 1) path).run s).2 = s := by
  -- the path is taken, and asking what it names changes nothing
  have hmake : (host.makeDirectory path).run s = (.error .fileExists, s) :=
    run_makeDirectory_error (FileTree.makeDirectory_of_resolve h)
  rw [makeDirectories, run_bind, hmake]
  dsimp only
  rw [if_neg (by decide), makeDirectories.settle, run_bind]
  split <;> rfl

end Command

end ChannelPreset
