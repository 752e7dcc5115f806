import ChannelPreset.Proofs.Command.Effects
import ChannelPreset.Proofs.Preset.Parts

/-!
# When a Command Overwrites its Input

A command that reads a preset from one path and writes it to another compares the output path with
the input file before it makes the directories of the output path. Where the directory of the output
path is there already, the input stays as it is. Where it is missing, nothing is compared, although
making directories can give the path a directory that holds the input: two dots behind a missing
name lead back from the directory made for that name.
-/

namespace ChannelPreset

/-- What a command that reads a preset from one path and writes it to another is given. -/
structure Conversion where
  input : String
  output : String
  /-- The form in which the preset is written. -/
  render : Preset → Bytes

/-- Whether the files of a machine form a tree, and paths can spell where it runs. -/
structure Machine.WellFormed (s : Machine) : Prop where
  closed : s.tree.Closed
  plain : FileTree.Plain s.current

namespace Command

open Machine

/-- The conversion that a command is, if it is one. -/
def conversion? : Command → Option Conversion
  | .dump text (.file report) pretty _ =>
    some ⟨text, report, fun preset => Utf8.encode (dumpText pretty preset)⟩
  | .reencode text output _ => some ⟨text, output, Preset.encode⟩
  | _ => none

/-- Makes the directories that an output path needs. -/
def prepare {m : Type → Type} [Monad m] (host : Host m) (output : String) : Step m Unit :=
  match Path.parent? output with
  | none | some "" => pure ()
  | some parent =>
    attempt s!"Failed to create output directory: {parent}"
      (makeDirectories host (parent.length + 1) parent)

section Preparing

variable {m : Type → Type} [Monad m] (host : Host m) {output parent : String}

theorem prepare_of_none (h : Path.parent? output = none) : prepare host output = pure () := by
  rw [prepare, h]

theorem prepare_of_empty (h : Path.parent? output = some "") :
    prepare host output = pure () := by
  rw [prepare, h]
  rfl

theorem prepare_of_parent (h : Path.parent? output = some parent) (hne : parent ≠ "") :
    prepare host output =
      attempt s!"Failed to create output directory: {parent}"
        (makeDirectories host (parent.length + 1) parent) := by
  rw [prepare, h]
  split
  · rename_i heq
    cases heq
  · rename_i heq
    exact absurd (Option.some.inj heq) hne
  · rename_i heq
    cases heq
    rfl

theorem store_eq [LawfulMonad m] (verbosity : Nat) (content : Bytes) :
    store host verbosity output content = (do
      prepare host output
      attempt s!"Failed to write output: {output}" (host.writeFile output content)
      tell host verbosity [.fileWritten content.length output]) := by
  unfold store
  split
  · rename_i h
    rw [prepare_of_none host h, pure_bind]
  · rename_i h
    rw [prepare_of_empty host h, pure_bind]
  · rename_i parent hne h
    rw [prepare_of_parent host h hne]

end Preparing

variable {s s' : Machine} {output name : String} {directory place : Location}

/-! ## The steps of a conversion -/

theorem exists_steps_eq {command : Command} {c : Conversion} (h : command.conversion? = some c)
    (verbosity : Nat) :
    ∃ finish : Preset → Step (StateM Machine) Unit, (∀ preset, Tells (finish preset)) ∧
      steps host verbosity command = (do
        let input ← inputFile host c.input
        checkDistinct host input c.output
        let preset ← load host verbosity input
        store host verbosity c.output (c.render preset)
        finish preset) := by
  cases command with
  | dump text destination pretty quiet =>
    cases destination with
    | output => cases h
    | file report =>
      cases h
      exact ⟨_, fun _ => tells_confirm quiet _, rfl⟩
  | describe text => cases h
  | reencode text output quiet =>
    cases h
    refine ⟨_, fun preset => ?_, rfl⟩
    dsimp only
    split
    · exact (tells_confirm quiet _).bind (tells_confirm quiet _)
    · exact tells_confirm quiet _
  | new output fileType comment quiet => cases h

/-! ## Making the directories of the output -/

/-- What holds of making directories holds of preparing an output path. -/
theorem prepare_induction {P : {α : Type} → StateM Machine α → Prop}
    (hpure : ∀ {α : Type} (a : α), P (pure a : StateM Machine α))
    (hbind : ∀ {α β : Type} {operation : StateM Machine α} {next : α → StateM Machine β},
      P operation → (∀ a, P (next a)) → P (operation >>= next))
    (hkind : ∀ path, P (host.kind path)) (hmake : ∀ path, P (host.makeDirectory path))
    (output : String) : P (prepare host output).run := by
  unfold prepare
  split
  · exact hpure _
  · exact hpure _
  · refine hbind (makeDirectories_induction hpure hbind hkind hmake _ _) fun result => ?_
    split <;> exact hpure _

theorem onlyMakes_prepare (output : String) : OnlyMakes (prepare host output).run :=
  prepare_induction (P := OnlyMakes) .pure .bind .kind .makeDirectory output

theorem grows_of_prepare {result : Except Failure Unit}
    (h : (prepare host output).run.run s = (result, s')) : Grows s s' := by
  have hgrows := (onlyMakes_prepare output).grows s
  rwa [h] at hgrows

theorem prepare_of_resolve (h : s.tree.resolve s.current (outputDirectory output) = .ok place) :
    ((prepare host output).run.run s).2 = s := by
  unfold outputDirectory at h
  split at h
  · rename_i hparent
    rw [prepare_of_none host hparent]
    rfl
  · rename_i hparent
    rw [prepare_of_empty host hparent]
    rfl
  · rename_i parent hne hparent
    rw [prepare_of_parent host hparent hne]
    have hmake := makeDirectories_of_resolve parent.length h
    cases hrun : (makeDirectories host (parent.length + 1) parent).run s with
    | mk result s' =>
      rw [hrun] at hmake
      cases result with
      | ok _ => rw [attempt_ok _ hrun, hmake]
      | error e => rw [attempt_error _ hrun, hmake]

/-! ## Comparing the output with the input -/

theorem outputDirectory_of_parent {parent : String} (h : Path.parent? output = some parent)
    (hne : parent ≠ "") : outputDirectory output = parent := by
  unfold outputDirectory
  rw [h]
  split
  · rename_i heq
    cases heq
  · rename_i heq
    exact absurd (Option.some.inj heq) hne
  · rename_i heq
    exact (Option.some.inj heq).symm

/-- The directory that is compared with the input is the one that the output is written in. -/
theorem resolve_outputDirectory {t : FileTree} {current : Location}
    (h : t.Points current output directory name) :
    t.resolve current (outputDirectory output) = .ok directory := by
  obtain ⟨front, hpieces, hwalk⟩ := h.walk_eq
  obtain ⟨parent, hparent, hnames, habsolute, hempty⟩ :=
    Path.parent?_eq_some hpieces h.isIdle_eq
  -- the directory has the names in front of the last one, and begins where the path begins
  have hsame : outputDirectory output ≠ "" ∧
      (Utf8.encode (outputDirectory output)).length ≤ FileTree.maxPathLength ∧
      Path.names (outputDirectory output) = front.filter (!Path.isIdle ·) ∧
      Path.isAbsolute (outputDirectory output) = Path.isAbsolute output := by
    by_cases hne : parent = ""
    · rw [hne] at hparent hnames
      rw [Path.names_of_isIdle Path.isIdle_empty] at hnames
      have hdot : outputDirectory output = "." := by
        rw [outputDirectory, hparent]
        rfl
      rw [hdot, ← hnames, hempty hne]
      exact ⟨by decide, by decide +kernel, Path.names_of_isIdle Path.isIdle_dot, rfl⟩
    · rw [outputDirectory_of_parent hparent hne]
      obtain ⟨back, hback⟩ := Path.prefix_of_parent?_eq_some hparent
      have hlength := h.length_le
      rw [Utf8.encode, ← hback, List.flatMap_append, List.length_append] at hlength
      exact ⟨hne, Nat.le_trans (Nat.le_add_right _ _) hlength, hnames, habsolute hne⟩
  obtain ⟨hne, hlength, hnames, habsolute⟩ := hsame
  unfold FileTree.resolve
  rw [if_neg hne, if_neg (Nat.not_lt.2 hlength), ← FileTree.walk_filter h.lookup_eq, ← Path.names,
    hnames, FileTree.walk_filter h.lookup_eq, FileTree.origin, habsolute]
  exact hwalk

theorem checkDistinct_of_missing {input : String} {e : HostError}
    (hinput : s.tree.resolve s.current input = .ok place)
    (hmissing : s.tree.resolve s.current (outputDirectory output) = .error e) :
    (checkDistinct host input output).run.run s = (.ok (), s) := by
  -- the directory cannot be resolved, and that is taken to mean that it is another one
  have hsource : (host.realPath input).run s = (.ok (FileTree.text place), s) := by
    rw [run_realPath, hinput]
    rfl
  have hdirectory : (always (host.realPath (outputDirectory output))).run.run s =
      (.ok (.error e), s) := by
    rw [run_always, run_realPath, hmissing]
    rfl
  unfold checkDistinct
  rw [run_bind_ok (attempt_ok _ hsource), run_bind_ok hdirectory]
  rfl

theorem checkDistinct_of_points {input : String} (hcurrent : FileTree.Plain s.current)
    (hpoints : s.tree.Points s.current output directory name)
    (hinput : s.tree.resolve s.current input = .ok (directory ++ [name])) :
    ∃ failure, (checkDistinct host input output).run.run s = (.error failure, s) := by
  have hsource : (host.realPath input).run s =
      (.ok (FileTree.text (directory ++ [name])), s) := by
    rw [run_realPath, hinput]
    rfl
  have hdirectory : (always (host.realPath (outputDirectory output))).run.run s =
      (.ok (.ok (FileTree.text directory)), s) := by
    rw [run_always, run_realPath, resolve_outputDirectory hpoints]
    rfl
  obtain ⟨front, hpieces, -⟩ := hpoints.walk_eq
  unfold checkDistinct
  rw [run_bind_ok (attempt_ok _ hsource), run_bind_ok hdirectory]
  dsimp only
  -- both texts are spelled from the same place
  rw [Path.fileName?_eq_some hpieces hpoints.isIdle_eq hpoints.ne_dots]
  dsimp only
  rw [if_pos (FileTree.join_text (hpoints.plain hcurrent))]
  exact ⟨_, rfl⟩

/-! ## Where the output leads -/

/-- Whether an output path leads to a place once its directories are made. -/
def Reaches (s : Machine) (output : String) (place : Location) : Prop :=
  ∃ s', (prepare host output).run.run s = (.ok (), s') ∧
    s'.tree.resolve s'.current output = .ok place

theorem Reaches.of_sameFiles (h : Reaches s output place) (hsame : SameFiles s s') :
    Reaches s' output place := by
  obtain ⟨made, hmade, hplace⟩ := h
  obtain ⟨hresult, htree, hcurrent⟩ := (onlyMakes_prepare output).same s s' hsame
  cases hrun : (prepare host output).run.run s' with
  | mk result made' =>
    rw [hmade, hrun] at hresult htree hcurrent
    dsimp only at hresult htree hcurrent
    refine ⟨made', by rw [hrun, hresult], ?_⟩
    rw [htree, hcurrent, hplace]

variable {content : Bytes}

theorem lookup_store_of_reaches (verbosity : Nat) (written : Bytes) (hclosed : s.tree.Closed)
    (hfile : s.tree.lookup place = some (.file content)) (h : Reaches s output place) :
    ((store host verbosity output written).run.run s).2.tree.lookup place =
      some (.file written) := by
  obtain ⟨made, hmade, hplace⟩ := h
  have hgrows := grows_of_prepare hmade
  -- the file is still there when its directory has been prepared
  have hkept := hgrows.keeps place _ hfile
  obtain ⟨directory, name, rfl, hpoints⟩ :=
    FileTree.exists_points_of_resolve (hgrows.closed hclosed) hplace hkept
  have htree : made.tree.writeFile made.current output written =
      .ok (made.tree.insert (directory ++ [name]) (.file written)) :=
    hpoints.writeFile_eq (by simp [hkept]) written
  have hwrite := attempt_ok s!"Failed to write output: {output}" (run_writeFile_ok htree)
  obtain ⟨told, htell, hsame⟩ := tells_tell verbosity [.fileWritten written.length output]
    { made with tree := made.tree.insert (directory ++ [name]) (.file written) }
  rw [store_eq, run_bind_ok hmade, run_bind_ok hwrite, htell, hsame.1, FileTree.lookup_insert,
    if_pos rfl]

theorem lookup_store_of_not_reaches (verbosity : Nat) (written : Bytes)
    (hfile : s.tree.lookup place = some (.file content)) (h : ¬ Reaches s output place) :
    ((store host verbosity output written).run.run s).2.tree.lookup place =
      some (.file content) := by
  rw [store_eq]
  cases hprepare : (prepare host output).run.run s with
  | mk result made =>
    have hkept := (grows_of_prepare hprepare).keeps place _ hfile
    cases result with
    | error failure => rw [run_bind_error hprepare, hkept]
    | ok _ =>
      rw [run_bind_ok hprepare]
      cases hwrite : made.tree.writeFile made.current output written with
      | error e => rw [run_bind_error (attempt_error _ (run_writeFile_error hwrite)), hkept]
      | ok tree =>
        obtain ⟨told, htell, hsame⟩ := tells_tell verbosity
          [.fileWritten written.length output] { made with tree }
        obtain ⟨directory, name, hpoints, -, rfl⟩ := FileTree.exists_points_of_writeFile hwrite
        -- the file would be at the place that the output leads to
        have hne : place ≠ directory ++ [name] := by
          rintro rfl
          exact h ⟨made, hprepare, hpoints.resolve_eq (by rw [hkept]; rfl)⟩
        rw [run_bind_ok (attempt_ok _ (run_writeFile_ok hwrite)), htell, hsame.1,
          FileTree.lookup_insert, if_neg hne, hkept]

/-- Storing changes a file exactly when the output leads to it and other bytes are written. -/
theorem lookup_store_ne_iff (verbosity : Nat) (written : Bytes) (hclosed : s.tree.Closed)
    (hfile : s.tree.lookup place = some (.file content)) :
    ((store host verbosity output written).run.run s).2.tree.lookup place ≠
        some (.file content) ↔ Reaches s output place ∧ written ≠ content := by
  by_cases h : Reaches s output place
  · rw [lookup_store_of_reaches verbosity written hclosed hfile h]
    simp [h]
  · rw [lookup_store_of_not_reaches verbosity written hfile h]
    simp [h]

theorem checkDistinct_cases (input output : String) (s : Machine) :
    (checkDistinct host input output).run.run s = (.ok (), s) ∨
      ∃ failure, (checkDistinct host input output).run.run s = (.error failure, s) := by
  have hlooks := looks_checkDistinct input output s
  cases hrun : (checkDistinct host input output).run.run s with
  | mk result s' =>
    rw [hrun] at hlooks
    obtain rfl : s' = s := hlooks
    cases result with
    | ok _ => exact .inl rfl
    | error failure => exact .inr ⟨failure, rfl⟩

theorem checkDistinct_eq_ok_iff {input : String} (hs : s.WellFormed)
    (hinput : s.tree.resolve s.current input = .ok place)
    (hfile : s.tree.lookup place = some (.file content)) (h : Reaches s output place) :
    (checkDistinct host input output).run.run s = (.ok (), s) ↔
      ∃ e, s.tree.resolve s.current (outputDirectory output) = .error e := by
  refine ⟨fun hcheck => ?_, fun ⟨e, hmissing⟩ => checkDistinct_of_missing hinput hmissing⟩
  cases hthere : s.tree.resolve s.current (outputDirectory output) with
  | error e => exact ⟨e, rfl⟩
  | ok there =>
    -- no directory is made, so the output leads to the input before anything is done
    obtain ⟨made, hmade, hplace⟩ := h
    have hunchanged := prepare_of_resolve hthere
    rw [hmade] at hunchanged
    obtain rfl : made = s := hunchanged
    obtain ⟨directory, name, rfl, hpoints⟩ :=
      FileTree.exists_points_of_resolve hs.closed hplace hfile
    obtain ⟨failure, hfailure⟩ := checkDistinct_of_points hs.plain hpoints hinput
    rw [hfailure] at hcheck
    cases hcheck

/-! ## Running a conversion -/

/-- Whether a conversion puts other bytes in place of the content of a file that it reads: nothing
is compared, since the directory of the output is missing, and the output leads to the file once
that directory is made. -/
def Overwrites (s : Machine) (c : Conversion) (place : Location) (content : Bytes) : Prop :=
  (∃ e, s.tree.resolve s.current (outputDirectory c.output) = .error e) ∧
    Reaches s c.output place ∧
    ∃ preset, Preset.decode content = .ok preset ∧ c.render preset ≠ content

theorem tree_bind {α : Type} {step : Step (StateM Machine) α}
    {next : α → Step (StateM Machine) Unit} (hnext : ∀ a, Prints (next a)) (s : Machine) :
    ((step >>= next).run.run s).2.tree = (step.run.run s).2.tree := by
  cases hstep : step.run.run s with
  | mk result s' =>
    cases result with
    | ok a =>
      rw [run_bind_ok hstep]
      exact (hnext a s').1
    | error failure => rw [run_bind_error hstep]

theorem lookup_steps_ne_iff {command : Command} {c : Conversion} {input : String}
    (hs : s.WellFormed) (hc : command.conversion? = some c) (verbosity : Nat)
    (hinput : (inputFile host c.input).run.run s = (.ok input, s))
    (hplace : s.tree.resolve s.current input = .ok place)
    (hfile : s.tree.lookup place = some (.file content)) :
    ((steps host verbosity command).run.run s).2.tree.lookup place ≠ some (.file content) ↔
      Overwrites s c place content := by
  obtain ⟨finish, hfinish, hsteps⟩ := exists_steps_eq hc verbosity
  -- what is loaded is the content of the file, as long as nothing has been written
  have hread : s.tree.readFile s.current input = .ok content := by
    rw [FileTree.readFile, hplace]
    dsimp only
    rw [hfile]
  obtain ⟨result, loaded, hload, hsame, hresult⟩ := exists_load verbosity hread
  rw [hsteps, run_bind_ok hinput]
  rcases checkDistinct_cases input c.output s with hcheck | ⟨failure, hcheck⟩
  · rw [run_bind_ok hcheck]
    cases result with
    | error failure =>
      rw [run_bind_error hload, hsame.1, hfile]
      refine ⟨fun hne => absurd rfl hne, fun ⟨_, _, preset, hdecode, _⟩ => ?_⟩
      cases (hresult preset).2 hdecode
    | ok preset =>
      have hdecode := (hresult preset).1 rfl
      have hloaded : loaded.tree.lookup place = some (.file content) := by rw [hsame.1, hfile]
      have hclosed : loaded.tree.Closed := by
        rw [hsame.1]
        exact hs.closed
      rw [run_bind_ok hload, tree_bind (fun _ => (hfinish preset).prints),
        lookup_store_ne_iff verbosity _ hclosed hloaded]
      -- loading prints, so the output leads where it did before
      constructor
      · rintro ⟨hreaches, hne⟩
        have hbefore := hreaches.of_sameFiles hsame.symm
        have hmissing := (checkDistinct_eq_ok_iff hs hplace hfile hbefore).1 hcheck
        exact ⟨hmissing, hbefore, preset, hdecode, hne⟩
      · rintro ⟨-, hreaches, preset', hdecode', hne⟩
        rw [hdecode] at hdecode'
        cases hdecode'
        exact ⟨hreaches.of_sameFiles hsame, hne⟩
  · rw [run_bind_error hcheck, hfile]
    refine ⟨fun hne => absurd rfl hne, fun ⟨⟨e, hmissing⟩, _⟩ => ?_⟩
    rw [checkDistinct_of_missing hplace hmissing] at hcheck
    cases hcheck

/-- Only an output path with two dots leads to the file that a conversion reads without being
refused. -/
theorem dots_mem_of_overwrites {c : Conversion} (hclosed : s.tree.Closed)
    (hfile : s.tree.lookup place = some (.file content)) (h : Overwrites s c place content) :
    ".." ∈ Path.pieces c.output := by
  obtain ⟨⟨e, hmissing⟩, ⟨made, hmade, hplace⟩, -⟩ := h
  have hgrows := grows_of_prepare hmade
  obtain ⟨directory, name, rfl, hpoints⟩ := FileTree.exists_points_of_resolve
    (hgrows.closed hclosed) hplace (hgrows.keeps place _ hfile)
  by_cases hdots : ".." ∈ Path.pieces c.output
  · exact hdots
  · -- then the directory of the input is the one that the path names from the beginning
    obtain ⟨front, hpieces, hwalk⟩ := hpoints.walk_eq
    have hdirectory := hclosed directory name (by rw [hfile]; rfl)
    rw [hpieces] at hdots
    rw [hgrows.current_eq] at hwalk
    have hthere := hclosed.walk_of_walk (fun h => hdots (List.mem_append_left _ h)) hwalk hdirectory
    rw [resolve_outputDirectory ⟨hpoints.ne_empty, hpoints.length_le, hpoints.name_length_le,
      hpoints.isIdle_eq, hpoints.ne_dots, hdirectory, front, hpieces, hthere⟩] at hmissing
    cases hmissing

end Command

/-! ## Running a command line -/

open Machine

theorem tree_run (invocation : Invocation) (s : Machine) :
    ((invocation.run host).run s).2.tree =
      ((Command.steps host invocation.verbosity invocation.command).run.run s).2.tree := by
  unfold Invocation.run
  rw [run_bind]
  cases (Command.steps host invocation.verbosity invocation.command).run.run s with
  | mk result s' => cases result <;> rfl

/-- A command line that converts a preset changes the file that it reads exactly when the directory
of the output path is missing, the output path leads to that file once the directory is made, and
the preset is not written as it was read. -/
theorem lookup_runArguments_ne_iff {s : Machine} {arguments : List String}
    {invocation : Invocation} {c : Conversion} {input : String} {place : Location}
    {content : Bytes} (hs : s.WellFormed) (hparse : Arguments.parse arguments = .ok invocation)
    (hc : invocation.command.conversion? = some c)
    (hinput : ((Command.inputFile host c.input).run.run s).1 = .ok input)
    (hplace : s.tree.resolve s.current input = .ok place)
    (hfile : s.tree.lookup place = some (.file content)) :
    ((runArguments host arguments).run s).2.tree.lookup place ≠ some (.file content) ↔
      Command.Overwrites s c place content := by
  have hlooks := Command.looks_inputFile c.input s
  have hrun : (Command.inputFile host c.input).run.run s = (.ok input, s) :=
    Prod.ext hinput hlooks
  rw [← Command.lookup_steps_ne_iff hs hc invocation.verbosity hrun hplace hfile, runArguments,
    hparse]
  dsimp only
  rw [tree_run]

/-! ## A command line that overwrites its input -/

section Crossing

/-- A machine that runs at the root, where one preset lies. -/
def Machine.sole : Machine :=
  .start (FileTree.empty.insert ["k.ich"] (.file Preset.shortest)) []

/-- A command line whose output path goes into a directory that is missing, and back out. -/
def Arguments.crossing : List String :=
  ["preset", "rewrite", "k.ich", "-o", "nosub/../k.ich"]

theorem eq_ok_of_toOption_eq_some {ε α : Type} {x : Except ε α} {a : α}
    (h : x.toOption = some a) : x = .ok a := by
  cases x with
  | ok b =>
    cases h
    rfl
  | error e => cases h

theorem wellFormed_sole : sole.WellFormed where
  closed := @FileTree.Closed.insert _ [] "k.ich" FileTree.closed_empty rfl rfl _
  plain _ h := nomatch h

theorem parse_crossing :
    Arguments.parse Arguments.crossing = .ok ⟨0, .reencode "k.ich" "nosub/../k.ich" false⟩ :=
  eq_ok_of_toOption_eq_some (by decide +kernel)

theorem inputFile_sole : ((Command.inputFile host "k.ich").run.run sole).1 = .ok "k.ich" :=
  eq_ok_of_toOption_eq_some (by decide +kernel)

theorem resolve_sole : sole.tree.resolve sole.current "k.ich" = .ok ["k.ich"] :=
  eq_ok_of_toOption_eq_some (by decide +kernel)

theorem lookup_sole : sole.tree.lookup ["k.ich"] = some (.file Preset.shortest) := by
  decide +kernel

theorem lookup_runArguments_crossing :
    ((runArguments host Arguments.crossing).run sole).2.tree.lookup ["k.ich"] ≠
      some (.file Preset.shortest) := by
  decide +kernel

theorem lookup_runArguments_ne_iff_crossing :
    sole.WellFormed ∧
      ((runArguments host Arguments.crossing).run sole).2.tree.lookup ["k.ich"] ≠
        some (.file Preset.shortest) ∧
      Command.Overwrites sole ⟨"k.ich", "nosub/../k.ich", Preset.encode⟩ ["k.ich"]
        Preset.shortest := by
  have hiff := lookup_runArguments_ne_iff wellFormed_sole parse_crossing rfl inputFile_sole
    resolve_sole lookup_sole
  exact ⟨wellFormed_sole, lookup_runArguments_crossing, hiff.1 lookup_runArguments_crossing⟩

/-- Not every command line that converts a preset leaves the file that it reads as it was. -/
theorem not_forall_lookup_runArguments_eq :
    ¬ ∀ (s : Machine) (arguments : List String) (invocation : Invocation) (c : Conversion)
      (input : String) (place : Location) (content : Bytes), s.WellFormed →
      Arguments.parse arguments = .ok invocation → invocation.command.conversion? = some c →
      ((Command.inputFile host c.input).run.run s).1 = .ok input →
      s.tree.resolve s.current input = .ok place →
      s.tree.lookup place = some (.file content) →
      ((runArguments host arguments).run s).2.tree.lookup place = some (.file content) := by
  intro h
  exact lookup_runArguments_crossing (h sole Arguments.crossing _ _ "k.ich" ["k.ich"] Preset.shortest
    wellFormed_sole parse_crossing rfl inputFile_sole resolve_sole lookup_sole)

end Crossing

end ChannelPreset
