import ChannelPreset.Proofs.Command.Confined
import ChannelPreset.Proofs.Files.Searching

/-!
# What a Command Reads

A text without signs of a pattern stands for itself as a path. A pattern stands for a path if it
finds that file and no other (`Command.resolves_iff`), and otherwise a command gives up.

A command reads no file but the one that its input stands for. A host can answer the reading of all
other files in any way (`Host.reading`), and the command runs as before
(`Command.run_steps_reading`, `runArguments_reads`).
-/

namespace ChannelPreset

/-! ## Hosts that read in another way -/

section Hosts

variable {m : Type → Type} (host : Host m) (readFile : String → m (Except HostError Bytes))

/-- A host that reads files in another way. -/
def Host.reading : Host m :=
  { host with readFile }

namespace Host

@[simp]
theorem makeDirectory_reading : (host.reading readFile).makeDirectory = host.makeDirectory :=
  rfl

@[simp]
theorem writeFile_reading : (host.reading readFile).writeFile = host.writeFile :=
  rfl

end Host

variable [Monad m]

namespace Pattern

theorem descendants_reading (depth : Nat) :
    descendants (host.reading readFile) depth = descendants host depth := by
  induction depth with
  | zero => rfl
  | succ depth ih =>
    funext directory
    rw [descendants, descendants, ih]
    rfl

theorem expand_reading (pieces : List Piece) :
    expand (host.reading readFile) pieces = expand host pieces := by
  induction hlength : pieces.length using Nat.strongRecOn generalizing pieces with
  | ind length ih =>
    funext f
    -- pieces of two asterisks are skipped together, so the induction is on the length
    cases pieces with
    | nil => rw [expand, expand]
    | cons piece pieces =>
      have hpieces := ih pieces.length (by rw [← hlength]; exact Nat.lt_succ_self _) pieces rfl
      rw [expand, expand, hpieces, descendants_reading]
      split
      · rfl
      · split
        · rfl
        · split
          · split
            · rfl
            · rename_i last rest hdrop
              have hrest : rest.length < length := by
                have := (List.dropWhile_suffix isRecursive (l := pieces)).length_le
                rw [hdrop, List.length_cons] at this
                rw [← hlength, List.length_cons]
                omega
              rw [ih rest.length hrest rest rfl]
          · rfl

theorem paths_reading (pattern : Pattern) :
    pattern.paths (host.reading readFile) = pattern.paths host := by
  have hexpand : expand (host.reading readFile) = expand host :=
    funext (expand_reading host readFile)
  rw [paths, paths, hexpand]
  rfl

end Pattern

namespace Command

theorem inputFile_reading (text : String) :
    inputFile (host.reading readFile) text = inputFile host text := by
  unfold inputFile resolveInput
  simp only [Pattern.paths_reading]
  rfl

theorem makeDirectories_reading (depth : Nat) :
    makeDirectories (host.reading readFile) depth = makeDirectories host depth := by
  have hsettle : makeDirectories.settle (host.reading readFile) = makeDirectories.settle host := by
    funext path result
    cases result <;> rfl
  induction depth with
  | zero => rfl
  | succ depth ih =>
    funext path
    rw [makeDirectories, makeDirectories, ih, hsettle, Host.makeDirectory_reading]

theorem tell_reading (verbosity : Nat) (events : List Event) :
    tell (host.reading readFile) verbosity events = tell host verbosity events :=
  rfl

theorem store_reading (verbosity : Nat) (output : String) (content : Bytes) :
    store (host.reading readFile) verbosity output content =
      store host verbosity output content := by
  unfold store
  simp only [makeDirectories_reading, tell_reading, Host.writeFile_reading]

theorem checkDistinct_reading (input output : String) :
    checkDistinct (host.reading readFile) input output = checkDistinct host input output :=
  rfl

/-- Loading a preset reads one file. -/
theorem load_reading {input : String} (h : readFile input = host.readFile input) (verbosity : Nat) :
    load (host.reading readFile) verbosity input = load host verbosity input := by
  have h' : (host.reading readFile).readFile input = host.readFile input := h
  unfold load
  rw [h']
  rfl

end Command

end Hosts

namespace Command

/-! ## What an input stands for -/

/-- The input that a command reads, if it reads one. -/
def input? : Command → Option String
  | .dump text _ _ _ | .describe text | .reencode text _ _ => some text
  | .new _ _ _ _ => none

open Machine

variable {s : Machine} {text path : String}

/-- Whether an input text stands for a path on a machine. -/
def Resolves (s : Machine) (text path : String) : Prop :=
  ((resolveInput host text).run.run s).1 = .ok path

theorem run_always_bind {α β : Type} {operation : StateM Machine α} (h : OnlyLooks operation)
    (next : α → Step (StateM Machine) β) :
    (always operation >>= next).run.run s = (next (s.seen operation)).run.run s := by
  refine run_bind_ok ?_
  rw [run_always, h]
  rfl

theorem onlyMatch_eq_ok_iff {paths : List String} :
    onlyMatch text paths = .ok path ↔ paths = [path] := by
  match paths with
  | [] => simp [onlyMatch]
  | [_] => simp [onlyMatch]
  | _ :: _ :: _ => simp [onlyMatch]

theorem resolves_iff_of_not_isPattern (h : Pattern.isPattern text = false) :
    Resolves s text path ↔ path = text := by
  have hrun : (resolveInput host text).run.run s = (.ok text, s) := by
    rw [resolveInput, h]
    rfl
  rw [Resolves, hrun]
  exact ⟨fun h => (Except.ok.inj h).symm, fun h => h ▸ rfl⟩

/-- A pattern stands for the only file that it finds. -/
theorem resolves_iff (h : Pattern.isPattern text = true) :
    Resolves s text path ↔
      ∃ pattern, Pattern.parse text = .ok pattern ∧ pattern.files s = [path] := by
  rw [Resolves, resolveInput, h]
  cases hparse : Pattern.parse text with
  | error fault =>
    refine iff_of_false ?_ ?_
    · nofun
    · rintro ⟨pattern, h, -⟩
      cases h
  | ok pattern =>
    have hkind : ∀ path, OnlyLooks (do return (← host.kind path) == some NodeKind.file) :=
      fun path => (OnlyLooks.look _).bind fun _ => .pure _
    have hfiles : ∀ paths : List String, s.seen (paths.filterM fun path => do
        return (← host.kind path) == some NodeKind.file) =
          paths.filter fun path => s.tree.kind s.current path == some .file :=
      fun paths => seen_filterM hkind paths
    dsimp only
    -- finding the paths and comparing their kinds leaves the machine as it is
    rw [if_neg (by simp), run_always_bind (Pattern.onlyLooks_paths pattern),
      run_always_bind (.filterM hkind _), hfiles]
    refine onlyMatch_eq_ok_iff.trans ⟨fun hmatch => ⟨pattern, rfl, hmatch⟩, ?_⟩
    rintro ⟨pattern', h, hmatch⟩
    cases h
    exact hmatch

/-! ## What is read -/

variable {β : Type} {input : String}

theorem resolves_of_inputFile (h : ((inputFile host text).run.run s).1 = .ok input) :
    Resolves s text input := by
  rw [Resolves]
  unfold inputFile at h
  cases hresolve : (resolveInput host text).run.run s with
  | mk result s' =>
    cases result with
    | error failure =>
      rw [run_bind_error hresolve] at h
      cases h
    | ok path =>
      rw [run_bind_ok hresolve] at h
      cases hcheck : (checkInput host path).run.run s' with
      | mk result s'' =>
        cases result with
        | error failure =>
          rw [run_bind_error hcheck] at h
          cases h
        | ok _ =>
          rw [run_bind_ok hcheck] at h
          exact h

/-- What comes behind an input file can differ on all but the path that the input stands for. -/
theorem run_inputFile_bind_congr {next next' : String → Step (StateM Machine) β}
    (h : ∀ input, Resolves s text input → next' input = next input) :
    (inputFile host text >>= next').run.run s = (inputFile host text >>= next).run.run s := by
  cases hinput : (inputFile host text).run.run s with
  | mk result s' =>
    cases result with
    | error failure => rw [run_bind_error hinput, run_bind_error hinput]
    | ok input =>
      rw [run_bind_ok hinput, run_bind_ok hinput, h input (resolves_of_inputFile (by rw [hinput]))]

/-- A command reads no file but the one that its input stands for. -/
theorem run_steps_reading {command : Command} (hinput : command.input? = some text)
    {readFile : String → StateM Machine (Except HostError Bytes)}
    (h : ∀ path, Resolves s text path → readFile path = host.readFile path) (verbosity : Nat) :
    (steps (host.reading readFile) verbosity command).run.run s =
      (steps host verbosity command).run.run s := by
  cases command with
  | dump input destination pretty quiet =>
    cases hinput
    cases destination with
    | output =>
      dsimp only [steps]
      rw [inputFile_reading]
      refine run_inputFile_bind_congr fun path hpath => ?_
      rw [load_reading _ _ (h path hpath)]
      rfl
    | file report =>
      dsimp only [steps]
      rw [inputFile_reading]
      refine run_inputFile_bind_congr fun path hpath => ?_
      rw [load_reading _ _ (h path hpath), checkDistinct_reading]
      simp only [store_reading]
      rfl
  | describe input =>
    cases hinput
    dsimp only [steps]
    rw [inputFile_reading]
    refine run_inputFile_bind_congr fun path hpath => ?_
    rw [load_reading _ _ (h path hpath)]
    rfl
  | reencode input output quiet =>
    cases hinput
    dsimp only [steps]
    rw [inputFile_reading]
    refine run_inputFile_bind_congr fun path hpath => ?_
    rw [load_reading _ _ (h path hpath), checkDistinct_reading]
    simp only [store_reading]
    rfl
  | new output fileType comment quiet => cases hinput

/-- A command that reads an input does its work only with a preset from the file that its input
stands for. -/
theorem ends_names {command : Command} (hinput : command.input? = some text) (verbosity : Nat) :
    Ends s (fun _ _ => ∃ preset, Names s text preset) (steps host verbosity command) s := by
  have hprint : ∀ shown : Preset → String,
      Ends s (fun _ _ => ∃ preset, Names s text preset)
        (inputFile host text >>= fun input => load host verbosity input >>= fun preset =>
          always (host.print (shown preset))) s := by
    refine fun shown => ends_inputFile fun path hpath => ?_
    refine ends_load_bind verbosity hpath fun preset s' hsame hnames => ?_
    exact (Ends.of_tells (tells_print _) s').mono hsame.sameContents
      fun _ _ _ => ⟨preset, hnames⟩
  have hconvert : ∀ {c : Conversion}, command.conversion? = some c → c.input = text →
      Ends s (fun _ _ => ∃ preset, Names s text preset) (steps host verbosity command) s := by
    rintro c hc rfl
    exact (ends_conversion hc verbosity s).mono (.refl s) fun _ _ ⟨preset, hnames, _⟩ =>
      ⟨preset, hnames⟩
  cases command with
  | dump input destination pretty quiet =>
    cases hinput
    cases destination with
    | output => exact hprint (dumpText pretty)
    | file report => exact hconvert rfl rfl
  | describe input =>
    cases hinput
    exact hprint Preset.describe
  | reencode input output quiet =>
    cases hinput
    exact hconvert rfl rfl
  | new output fileType comment quiet => cases hinput

end Command

open Machine

theorem Invocation.run_reading {s : Machine} {invocation : Invocation} {text : String}
    (hinput : invocation.command.input? = some text)
    {readFile : String → StateM Machine (Except HostError Bytes)}
    (h : ∀ path, Command.Resolves s text path → readFile path = host.readFile path) :
    (invocation.run (host.reading readFile)).run s = (invocation.run host).run s := by
  rw [Invocation.run, Invocation.run, run_bind, run_bind,
    Command.run_steps_reading hinput h invocation.verbosity]
  rfl

theorem Invocation.names_of_run {s : Machine} {invocation : Invocation} {text : String}
    (hinput : invocation.command.input? = some text)
    (h : ((invocation.run host).run s).1 = successCode) :
    ∃ preset, Command.Names s text preset := by
  have hends := Command.ends_names (s := s) hinput invocation.verbosity
  rw [Invocation.run, run_bind] at h
  cases hsteps : (Command.steps host invocation.verbosity invocation.command).run.run s with
  | mk result s' =>
    cases result with
    | ok _ => exact hends.condition_of_ok hsteps
    | error failure =>
      rw [hsteps] at h
      have hcode : failureCode = successCode := h
      exact absurd hcode (by decide)

/-- A text that leads to a file, as the input of a command. Without signs of a pattern it stands for
itself. With such a sign it stands for the only file that it finds, if it finds one only; that is
the file it leads to, unless there is a bracket in it. A command line with this input reads the file
that it stands for and no other, and succeeds only with a preset that this file holds. -/
theorem runArguments_reads {s : Machine} {text : String} (hclosed : s.tree.Closed)
    (hfile : s.tree.kind s.current text = some .file) :
    (Pattern.isPattern text = false → Command.Resolves s text text) ∧
    (Pattern.isPattern text = true → ∀ path, Command.Resolves s text path ↔
      ∃ pattern, Pattern.parse text = .ok pattern ∧ pattern.files s = [path]) ∧
    ('[' ∉ text.toList → ∀ path, Command.Resolves s text path →
      s.tree.resolve s.current path = s.tree.resolve s.current text) ∧
    ∀ arguments invocation, Arguments.parse arguments = .ok invocation →
      invocation.command.input? = some text →
        (∀ readFile, (∀ path, Command.Resolves s text path → readFile path = host.readFile path) →
          (runArguments (host.reading readFile) arguments).run s =
            (runArguments host arguments).run s) ∧
        (((runArguments host arguments).run s).1 = successCode →
          ∃ path content preset, Command.Resolves s text path ∧
            s.tree.readFile s.current path = .ok content ∧
            Preset.decode content = .ok preset) := by
  refine ⟨fun hplain => (Command.resolves_iff_of_not_isPattern hplain).2 rfl,
    fun hpattern path => Command.resolves_iff hpattern, fun hbracket path hpath => ?_,
    fun arguments invocation hparse hinput => ⟨fun readFile hread => ?_, fun hcode => ?_⟩⟩
  · -- without brackets, what is found leads where the text leads
    cases hpattern : Pattern.isPattern text with
    | false => rw [(Command.resolves_iff_of_not_isPattern hpattern).1 hpath]
    | true =>
      obtain ⟨pattern, hparse, hfiles⟩ := (Command.resolves_iff hpattern).1 hpath
      exact Pattern.resolve_eq_of_files hclosed hbracket hfile hparse hfiles
  · -- no other file is read
    rw [runArguments, runArguments, hparse]
    exact Invocation.run_reading hinput hread
  · -- and a command that succeeds has read this one
    rw [runArguments, hparse] at hcode
    obtain ⟨preset, path, content, hpath, hread, hdecode⟩ := Invocation.names_of_run hinput hcode
    exact ⟨path, content, preset, Command.resolves_of_inputFile hpath, hread, hdecode⟩

/-! ## Names with signs of patterns -/

section Lettered

open Pattern

/-- A machine that runs at the root, where the names of two files have signs of patterns. -/
def Machine.lettered : Machine :=
  .start (((FileTree.empty.insert ["a1.ich"] (.file Preset.shortest)).insert ["a[1].ich"]
    (.file [])).insert ["k?.ich"] (.file [])) []

theorem wellFormed_lettered : lettered.WellFormed where
  closed := by
    have hfirst := @FileTree.Closed.insert _ [] "a1.ich" FileTree.closed_empty rfl rfl
      (.file Preset.shortest)
    have hsecond := @FileTree.Closed.insert _ [] "a[1].ich" hfirst rfl (by decide +kernel)
      (.file [])
    exact @FileTree.Closed.insert _ [] "k?.ich" hsecond rfl (by decide +kernel) (.file [])
  plain _ h := nomatch h

theorem below_lettered : below lettered (found lettered ".") =
    ["a1.ich", "a[1].ich", "k?.ich"].map (found lettered) := by
  have hresolve : lettered.tree.resolve lettered.current "." = .ok [] := rfl
  have hnames : lettered.tree.names [] =
      ["k?.ich", "a[1].ich", "a1.ich"].mergeSort fun a b => decide (a ≤ b) := rfl
  have hsorted : lettered.tree.names [] = ["a1.ich", "a[1].ich", "k?.ich"] := by
    rw [hnames]
    simp [List.mergeSort, List.MergeSort.Internal.splitInTwo]
  rw [below_of_resolve hresolve, hsorted]
  rfl

theorem flatMap_hasName {paths : List String} (piece : Piece)
    (h : ∀ path ∈ paths, Path.fileName? path = some path) (s : Machine) :
    ((paths.map (found s)).flatMap fun child =>
      if hasName piece child then finds s [] child else []) =
        (paths.filter fun path => covers piece path.toList).map (found s) := by
  induction paths with
  | nil => rfl
  | cons path paths ih =>
    rw [List.forall_mem_cons] at h
    have hname : hasName piece (found s path) = covers piece path.toList :=
      hasName_of_fileName? h.1
    rw [List.map_cons, List.flatMap_cons, ih h.2, hname, finds_nil, List.filter_cons]
    split <;> rfl

/-- A piece that begins with a letter finds the only name that it covers. -/
theorem finds_lettered {piece : Piece} {name : String} (hplain : plain? piece = none)
    (hrecursive : isRecursive piece = false) (hdots : dotNames piece = [])
    (hcovers : (["a1.ich", "a[1].ich", "k?.ich"].filter fun name => covers piece name.toList) =
      [name]) :
    finds lettered [piece] (Pattern.start lettered false) = [found lettered name] := by
  have hdirectory : (found lettered ".").isDirectory = true := by decide +kernel
  have hstart : Pattern.start lettered false = found lettered "." := rfl
  rw [hstart, finds_of_not_isRecursive hplain hdirectory hrecursive, hdots, below_lettered,
    flatMap_hasName piece (by decide +kernel) lettered, hcovers]
  rfl

theorem files_of_finds {s : Machine} {pieces : List Piece} {path : String}
    (h : finds s pieces (Pattern.start s false) = [found s path])
    (hkind : s.tree.kind s.current path = some .file) :
    files s ⟨false, pieces, false⟩ = [path] := by
  rw [files_eq, h]
  simp [hkind, found]

theorem exists_files_mark : ∃ pattern, parse "./k?.ich" = .ok pattern ∧
    files lettered pattern = ["k?.ich"] := by
  have hparse : parse "./k?.ich" = .ok ⟨false, [[.char '.'], [.char 'k', .anyChar, .char '.',
      .char 'i', .char 'c', .char 'h']], false⟩ := by
    cbv
  refine ⟨_, hparse, files_of_finds ?_ (by decide +kernel)⟩
  -- the dot in front leads to where the search begins
  have hnamed : isNamed lettered (Pattern.start lettered false) "." = true := by decide +kernel
  have hinside : found lettered (inside (Pattern.start lettered false) ".") =
      Pattern.start lettered false := by decide +kernel
  have hdot : String.ofList ['.'] = "." := rfl
  rw [finds_of_plain rfl, hdot, hnamed, if_pos rfl, hinside]
  exact finds_lettered rfl rfl rfl (by cbv)

theorem runArguments_reads_lettered :
    lettered.tree.Closed ∧
      (lettered.tree.kind lettered.current "./k?.ich" = some .file ∧
        Command.Resolves lettered "./k?.ich" "k?.ich" ∧
        lettered.tree.resolve lettered.current "k?.ich" =
          lettered.tree.resolve lettered.current "./k?.ich") ∧
      lettered.tree.kind lettered.current "a1.ich" = some .file ∧
        Command.Resolves lettered "a1.ich" "a1.ich" ∧
        (runArguments (host.reading fun path => if path = "a1.ich" then host.readFile path
          else pure (.error .noSuchFile)) ["preset", "describe", "a1.ich"]).run lettered =
            (runArguments host ["preset", "describe", "a1.ich"]).run lettered ∧
        ∃ path content preset, Command.Resolves lettered "a1.ich" path ∧
          lettered.tree.readFile lettered.current path = .ok content ∧
          Preset.decode content = .ok preset := by
  have hmark : lettered.tree.kind lettered.current "./k?.ich" = some .file := by decide +kernel
  have hplain : lettered.tree.kind lettered.current "a1.ich" = some .file := by decide +kernel
  have hparse : Arguments.parse ["preset", "describe", "a1.ich"] = .ok ⟨0, .describe "a1.ich"⟩ :=
    eq_ok_of_toOption_eq_some (by decide +kernel)
  obtain ⟨-, hresolves, hleads, -⟩ := runArguments_reads wellFormed_lettered.closed hmark
  have hfound := (hresolves rfl "k?.ich").2 exists_files_mark
  obtain ⟨hself, -, -, hruns⟩ := runArguments_reads wellFormed_lettered.closed hplain
  obtain ⟨hreads, hpreset⟩ := hruns _ _ hparse rfl
  refine ⟨wellFormed_lettered.closed, ⟨hmark, hfound, hleads (by decide) _ hfound⟩, hplain,
    hself rfl, hreads _ fun path hpath => ?_, hpreset (by decide +kernel)⟩
  exact if_pos ((Command.resolves_iff_of_not_isPattern rfl).1 hpath)

theorem exists_files_class : ∃ pattern, parse "a[1].ich" = .ok pattern ∧
    files lettered pattern = ["a1.ich"] := by
  have hparse : parse "a[1].ich" = .ok ⟨false, [[.char 'a', .within [.single '1'], .char '.',
      .char 'i', .char 'c', .char 'h']], false⟩ := by
    cbv
  exact ⟨_, hparse, files_of_finds (finds_lettered rfl rfl rfl (by cbv)) (by decide +kernel)⟩

/-- Not every name of a file stands for itself: a class of one character stands for the character,
without the brackets, and so for another file. -/
theorem not_forall_resolves_self :
    ¬ ∀ (s : Machine) (text : String), s.WellFormed → s.tree.kind s.current text = some .file →
      Command.Resolves s text text := by
  intro h
  have hself := h lettered "a[1].ich" wellFormed_lettered (by decide +kernel)
  have hother := (Command.resolves_iff rfl).2 exists_files_class
  have heq : "a[1].ich" = "a1.ich" := Except.ok.inj (hself.symm.trans hother)
  exact absurd heq (by decide)

end Lettered

end ChannelPreset
