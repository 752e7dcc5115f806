import ChannelPreset.Proofs.Command.Overwriting

/-!
# What a Command Leaves Behind

A command that gives up has changed no file; it may have made directories. A command that does its
work changes at most the file that its output path leads to, and that file holds what the command
was to write (`runArguments_leaves`).

A step is followed by what it ends in (`Command.Ends`): a result with a condition on the machine, or
a failure on a machine whose files are as they were at the beginning. Only writing the output ends
in other files, and no step behind it can fail.
-/

namespace ChannelPreset

namespace Machine

/-- Whether all files of two machines are the same, whatever directories they lie in. -/
def SameContents (s s' : Machine) : Prop :=
  ∀ place, s'.tree.content? place = s.tree.content? place

theorem SameContents.refl (s : Machine) : SameContents s s :=
  fun _ => rfl

theorem SameContents.trans {s₁ s₂ s₃ : Machine} (h₁ : SameContents s₁ s₂)
    (h₂ : SameContents s₂ s₃) : SameContents s₁ s₃ :=
  fun place => (h₂ place).trans (h₁ place)

theorem SameFiles.sameContents {s s' : Machine} (h : SameFiles s s') : SameContents s s' :=
  fun place => congrArg (·.content? place) h.1

/-- Whether the file that a path leads to afterwards has a content, and all other files are as they
were before. -/
def Wrote (s s' : Machine) (path : String) (content : Bytes) : Prop :=
  ∃ place, s'.tree.resolve s'.current path = .ok place ∧
    s'.tree.content? place = some content ∧
    ∀ other, other ≠ place → s'.tree.content? other = s.tree.content? other

theorem Wrote.of_sameContents {s₁ s₂ s₃ : Machine} {path : String} {content : Bytes}
    (hsame : SameContents s₁ s₂) (h : Wrote s₂ s₃ path content) : Wrote s₁ s₃ path content := by
  obtain ⟨place, hresolve, hplace, hothers⟩ := h
  exact ⟨place, hresolve, hplace, fun other hne => (hothers other hne).trans (hsame other)⟩

theorem Wrote.of_sameFiles {s₁ s₂ s₃ : Machine} {path : String} {content : Bytes}
    (h : Wrote s₁ s₂ path content) (hsame : SameFiles s₂ s₃) : Wrote s₁ s₃ path content := by
  obtain ⟨htree, hcurrent⟩ := hsame
  rw [Wrote, htree, hcurrent]
  exact h

/-- Whether an operation leaves all files as they are. -/
def KeepsContents {α : Type} (operation : StateM Machine α) : Prop :=
  ∀ s, SameContents s (operation.run s).2

namespace KeepsContents

variable {α β : Type}

theorem pure (a : α) : KeepsContents (pure a : StateM Machine α) :=
  fun s => .refl s

theorem bind {operation : StateM Machine α} {next : α → StateM Machine β}
    (h : KeepsContents operation) (hnext : ∀ a, KeepsContents (next a)) :
    KeepsContents (operation >>= next) :=
  fun _ => (h _).trans (hnext _ _)

theorem kind (path : String) : KeepsContents (host.kind path) :=
  fun s => .refl s

/-- A directory is made where nothing is. -/
theorem makeDirectory (path : String) : KeepsContents (host.makeDirectory path) := by
  intro s
  cases hs : s.tree.makeDirectory s.current path with
  | ok tree =>
    rw [run_makeDirectory_ok hs]
    obtain ⟨directory, name, -, hnone, rfl⟩ := FileTree.makeDirectory_eq_ok hs
    exact FileTree.content?_insert_directory hnone
  | error e =>
    rw [run_makeDirectory_error hs]
    exact .refl s

end KeepsContents

end Machine

namespace Command

open Machine

variable {α β : Type} {s₀ s s' : Machine}

theorem keepsContents_prepare (output : String) : KeepsContents (prepare host output).run :=
  prepare_induction (P := KeepsContents) .pure .bind .kind .makeDirectory output

/-! ## What a step ends in -/

/-- A step ends in a result for which the condition holds, or gives up on a machine with the files
of the first machine. -/
structure Ends (s₀ : Machine) (condition : α → Machine → Prop) (step : Step (StateM Machine) α)
    (s : Machine) : Prop where
  condition_of_ok {a : α} {s' : Machine} : step.run.run s = (.ok a, s') → condition a s'
  same_of_error {failure : Failure} {s' : Machine} :
    step.run.run s = (.error failure, s') → SameContents s₀ s'

namespace Ends

variable {step : Step (StateM Machine) α} {condition : α → Machine → Prop}

theorem of_ok {a : α} (h : step.run.run s = (.ok a, s')) (ha : condition a s') :
    Ends s₀ condition step s where
  condition_of_ok h' := by
    rw [h] at h'
    cases h'
    exact ha
  same_of_error h' := by
    rw [h] at h'
    cases h'

theorem of_error {failure : Failure} (h : step.run.run s = (.error failure, s'))
    (hsame : SameContents s₀ s') : Ends s₀ condition step s where
  condition_of_ok h' := by
    rw [h] at h'
    cases h'
  same_of_error h' := by
    rw [h] at h'
    cases h'
    exact hsame

theorem bind {next : α → Step (StateM Machine) β} {condition' : β → Machine → Prop}
    (h : Ends s₀ condition step s)
    (hnext : ∀ a s', condition a s' → Ends s₀ condition' (next a) s') :
    Ends s₀ condition' (step >>= next) s := by
  cases hstep : step.run.run s with
  | mk result s' =>
    cases result with
    | ok a =>
      have hend := hnext a s' (h.condition_of_ok hstep)
      constructor <;> rw [run_bind_ok hstep]
      · exact hend.condition_of_ok
      · exact hend.same_of_error
    | error failure => exact of_error (run_bind_error hstep) (h.same_of_error hstep)

/-- The first machine can be exchanged for one with the same files, and the condition for one that
follows from it. -/
theorem mono {s₁ : Machine} {condition' : α → Machine → Prop} (h : Ends s₁ condition step s)
    (hsame : SameContents s₀ s₁) (hcondition : ∀ a s', condition a s' → condition' a s') :
    Ends s₀ condition' step s where
  condition_of_ok hrun := hcondition _ _ (h.condition_of_ok hrun)
  same_of_error hrun := hsame.trans (h.same_of_error hrun)

/-- A step that only looks ends where it began. -/
theorem of_looks (h : Looks step) (s : Machine) :
    Ends s (fun a s' => s' = s ∧ (step.run.run s).1 = .ok a) step s := by
  have hlooks := h s
  cases hstep : step.run.run s with
  | mk result s' =>
    rw [hstep] at hlooks
    obtain rfl : s' = s := hlooks
    cases result with
    | ok a => exact of_ok hstep ⟨rfl, rfl⟩
    | error failure => exact of_error hstep (.refl _)

theorem of_tells {step : Step (StateM Machine) Unit} (h : Tells step) (s : Machine) :
    Ends s (fun _ s' => SameFiles s s') step s := by
  obtain ⟨s', hrun, hsame⟩ := h s
  exact of_ok hrun hsame

end Ends

/-! ## Reading and writing -/

/-- Whether a text names an input file that a preset is read from. -/
def Names (s : Machine) (text : String) (preset : Preset) : Prop :=
  ∃ input content, ((inputFile host text).run.run s).1 = .ok input ∧
    s.tree.readFile s.current input = .ok content ∧ Preset.decode content = .ok preset

/-- Loading a preset leaves the files as they are. -/
theorem ends_load (verbosity : Nat) (input : String) (s : Machine) :
    Ends s (fun preset s' => SameFiles s s' ∧ ∃ content,
      s.tree.readFile s.current input = .ok content ∧ Preset.decode content = .ok preset)
      (load host verbosity input) s := by
  cases hread : s.tree.readFile s.current input with
  | error e =>
    have hlook : (host.readFile input).run s = (s.tree.readFile s.current input, s) := rfl
    rw [hread] at hlook
    unfold load
    exact Ends.of_error (run_bind_error (attempt_error _ hlook)) (.refl s)
  | ok content =>
    obtain ⟨result, s', hload, hsame, hresult⟩ := exists_load verbosity hread
    cases result with
    | ok preset => exact Ends.of_ok hload ⟨hsame, content, rfl, (hresult preset).1 rfl⟩
    | error failure => exact Ends.of_error hload hsame.sameContents

theorem ends_prepare (output : String) (s : Machine) :
    Ends s (fun _ s' => SameContents s s') (prepare host output) s := by
  have hmade := keepsContents_prepare output s
  cases hprepare : (prepare host output).run.run s with
  | mk result made =>
    have hsame : SameContents s made := by rwa [hprepare] at hmade
    cases result with
    | ok _ => exact Ends.of_ok hprepare hsame
    | error failure => exact Ends.of_error hprepare hsame

/-- The file that is written is the one that the path leads to when it is there. -/
theorem ends_writeFile (context output : String) (content : Bytes) (s : Machine) :
    Ends s (fun _ s' => Wrote s s' output content)
      (attempt context (host.writeFile output content)) s := by
  cases hwrite : s.tree.writeFile s.current output content with
  | error e => exact Ends.of_error (attempt_error context (run_writeFile_error hwrite)) (.refl s)
  | ok tree =>
    refine Ends.of_ok (attempt_ok context (run_writeFile_ok hwrite)) ?_
    obtain ⟨directory, name, hpoints, hfree, rfl⟩ := FileTree.exists_points_of_writeFile hwrite
    -- the path leads to the same place once the file is there
    refine ⟨directory ++ [name], (hpoints.insert_file hfree content).resolve_eq ?_,
      FileTree.content?_insert_file content, fun other hother => ?_⟩
    · rw [FileTree.lookup_insert, if_pos rfl]
      rfl
    · exact FileTree.content?_insert_of_ne hother

/-- Storing gives the file that the output path leads to the content, or changes no file. -/
theorem ends_store (verbosity : Nat) (output : String) (content : Bytes) (s : Machine) :
    Ends s (fun _ s' => Wrote s s' output content) (store host verbosity output content) s := by
  rw [store_eq]
  -- directories stay made when the writing behind them fails
  refine (ends_prepare output s).bind fun _ made hmade => ?_
  have hwrite := (ends_writeFile s!"Failed to write output: {output}" output content made).mono
    hmade fun _ _ hwrote => hwrote.of_sameContents hmade
  refine hwrite.bind fun _ written hwrote => ?_
  -- what is told behind the writing cannot fail
  obtain ⟨told, htell, hsame⟩ :=
    tells_tell verbosity [.fileWritten content.length output] written
  exact Ends.of_ok htell (hwrote.of_sameFiles hsame)

/-! ## What is left behind -/

variable {condition : β → Machine → Prop} {text input : String}

/-- A step that follows the choice of the input file. -/
theorem ends_inputFile {next : String → Step (StateM Machine) β}
    (hnext : ∀ input, ((inputFile host text).run.run s).1 = .ok input →
      Ends s condition (next input) s) :
    Ends s condition (inputFile host text >>= next) s := by
  refine (Ends.of_looks (looks_inputFile text) s).bind ?_
  rintro input _ ⟨rfl, hinput⟩
  exact hnext input hinput

/-- A step that follows the reading of the preset in the input file. -/
theorem ends_load_bind {next : Preset → Step (StateM Machine) β} (verbosity : Nat)
    (hinput : ((inputFile host text).run.run s).1 = .ok input)
    (hnext : ∀ preset s', SameFiles s s' → Names s text preset →
      Ends s condition (next preset) s') :
    Ends s condition (load host verbosity input >>= next) s := by
  refine (ends_load verbosity input s).bind ?_
  rintro preset s' ⟨hsame, content, hread, hdecode⟩
  exact hnext preset s' hsame ⟨input, content, hinput, hread, hdecode⟩

/-- Storing, and telling about it, gives the file that the output path leads to the content, or
changes no file. -/
theorem ends_store_bind {finish : Step (StateM Machine) Unit} (hfinish : Tells finish)
    (verbosity : Nat) (output : String) (content : Bytes) (hsame : SameContents s₀ s) :
    Ends s₀ (fun _ s' => Wrote s₀ s' output content)
      (store host verbosity output content >>= fun _ => finish) s := by
  have hstored : Ends s (fun _ s' => Wrote s s' output content)
      (store host verbosity output content >>= fun _ => finish) s := by
    refine (ends_store verbosity output content s).bind fun _ s₁ hwrote => ?_
    obtain ⟨s₂, hrun, htold⟩ := hfinish s₁
    exact Ends.of_ok hrun (hwrote.of_sameFiles htold)
  exact hstored.mono hsame fun _ _ hwrote => hwrote.of_sameContents hsame

theorem ends_conversion {command : Command} {c : Conversion} (h : command.conversion? = some c)
    (verbosity : Nat) (s : Machine) :
    Ends s (fun _ s' => ∃ preset, Names s c.input preset ∧
      Wrote s s' c.output (c.render preset)) (steps host verbosity command) s := by
  obtain ⟨finish, hfinish, hsteps⟩ := exists_steps_eq h verbosity
  rw [hsteps]
  -- the files are as in the beginning until the output is stored
  refine ends_inputFile fun input hinput => ?_
  refine (Ends.of_looks (looks_checkDistinct input c.output) s).bind ?_
  rintro _ _ ⟨rfl, -⟩
  refine ends_load_bind verbosity hinput fun preset s' hsame hnames => ?_
  have hstored := ends_store_bind (hfinish preset) verbosity c.output (c.render preset)
    hsame.sameContents
  exact hstored.mono (.refl _) fun _ _ hwrote => ⟨preset, hnames, hwrote⟩

end Command

/-! ## Command lines -/

open Machine

end ChannelPreset
