import Manuscript.Cli.Program
import Manuscript.Proofs.Conversion.Faults
import Manuscript.Proofs.Conversion.Output
import Manuscript.Proofs.Text.Glyph
import Manuscript.Proofs.Tree.Json

/-!
# What a run leaves behind

The standard output of a run is a whole document or empty. Writing to a file instead changes nothing
but where the document goes: before the document is written the two runs fail together, and behind it
stand the same bytes.
-/

namespace Manuscript.Cli

open Files (FileSystem)

/-! ## Failures -/

theorem code_one : (1 : UInt8) ≠ 0 := by
  decide

theorem causes_ofError {e : Error} (h : e.isOfWriting = false) (attempt : String) :
    (Failure.ofError attempt e).causes.length = 1 := by
  cases e with
  | outputWriteFailed => cases h
  | _ => rfl

theorem causes_readTree {s : Surroundings} {input : String} {failure : Failure}
    (h : readTree s input = .error failure) : failure.causes.length = 1 := by
  rw [readTree] at h
  split at h
  · split at h
    · obtain rfl := Except.error.inj h
      rfl
    · split at h
      · cases h
      · obtain rfl := Except.error.inj h
        rfl
  · split at h
    · split at h
      · cases h
      · obtain rfl := Except.error.inj h
        rfl
    · obtain rfl := Except.error.inj h
      rfl
    · obtain rfl := Except.error.inj h
      rfl

/-- The run tells that it could not write the document. -/
def Outcome.CannotWrite (o : Outcome) (path : String) : Prop :=
  ∃ cause, .failure (.ofError "Conversion failed" (.outputWriteFailed path cause)) ∈ o.lines

/-- The run fails without any document to write. -/
structure Outcome.Fails (o : Outcome) : Prop where
  code : o.code ≠ 0
  output : o.output = []
  causes : ∀ failure, .failure failure ∈ o.lines → failure.causes.length = 1

theorem Outcome.Fails.not_cannotWrite {o : Outcome} (h : o.Fails) (path : String) :
    ¬ o.CannotWrite path := by
  rintro ⟨cause, hLine⟩
  have hCauses := h.causes _ hLine
  cases hCauses

/-! ## Outcomes -/

section

variable {α : Type} {o : Options} {config : Config} {run : Run α} {stats : α → Stats}
  {output : α → List UInt8} {files : FileSystem}

/-- Only the end of a conversion tells of a failure. -/
theorem failure_mem_outcome {failure : Failure} :
    .failure failure ∈ (outcome o config run stats output files).lines ↔
      ∃ e, run.result = .error e ∧ failure = .ofError "Conversion failed" e := by
  have hProgress : Line.failure failure ∉ progressLines config run := by
    intro hMem
    obtain ⟨event, _, hLine⟩ := List.mem_filterMap.mp hMem
    split at hLine <;> cases hLine
  change _ ∈ progressLines config run ++ closing o (run.result.map stats) ↔ _
  rw [List.mem_append, or_iff_right hProgress]
  cases run.result with
  | error e =>
    change _ ∈ [Line.failure (.ofError "Conversion failed" e)] ↔ _
    rw [List.mem_singleton]
    simp
  | ok x =>
    change _ ∈ (if o.quiet then [] else [Line.summary (stats x) o.output]) ↔ _
    cases o.quiet <;> simp

theorem outcome_of_error {e : Error} (h : run.result = .error e) :
    (outcome o config run stats output files).code = 1 ∧
      (outcome o config run stats output files).output = [] := by
  rw [outcome, h]
  exact ⟨rfl, rfl⟩

theorem outcome_of_ok {x : α} (h : run.result = .ok x) :
    (outcome o config run stats output files).code = 0 ∧
      (outcome o config run stats output files).output = output x := by
  rw [outcome, h]
  exact ⟨rfl, rfl⟩

theorem fails_outcome {e : Error} (h : run.result = .error e) (hWriting : e.isOfWriting = false) :
    (outcome o config run stats output files).Fails := by
  obtain ⟨hCode, hOutput⟩ : (outcome o config run stats output files).code = 1 ∧ _ :=
    outcome_of_error h
  refine ⟨hCode ▸ code_one, hOutput, fun failure hLine => ?_⟩
  obtain ⟨e', hError, rfl⟩ := failure_mem_outcome.mp hLine
  obtain rfl := Except.error.inj (h.symm.trans hError)
  exact causes_ofError hWriting _

end

/-! ## Documents -/

namespace Command

/-- Nothing keeps the command from a document and its bytes. -/
structure Produces (command : Command) (s : Surroundings) (tree : Tree) (config : Config)
    (serialized : Serialized) (stats : Stats) : Prop where
  reads : readTree s command.input = .ok tree
  configures : Config.ofSettings (command.settings s) = .ok config
  converts : (config.convertToBytes (.json command.options.pretty) tree).result =
    .ok (serialized, stats)

variable {command : Command} {s t : Surroundings} {tree : Tree} {config : Config}
  {serialized : Serialized} {stats : Stats} {path : String}

/-- Before the conversion a command leaves nothing behind but the failure. -/
def stopped (s : Surroundings) (failure : Failure) : Outcome :=
  { code := 1, lines := [.failure failure], files := s.files }

theorem run_of_unread {failure : Failure} (h : readTree s command.input = .error failure) :
    command.run s = stopped s failure := by
  rw [run, h]
  rfl

theorem run_of_unconfigured {e : Error} (hTree : readTree s command.input = .ok tree)
    (h : Config.ofSettings (command.settings s) = .error e) :
    command.run s = stopped s (.ofError "Invalid configuration" e) := by
  rw [run, hTree]
  dsimp only
  rw [h]
  rfl

theorem run_of_configured (hTree : readTree s command.input = .ok tree)
    (h : Config.ofSettings (command.settings s) = .ok config) :
    command.run s = emit s command.options config tree := by
  rw [run, hTree]
  dsimp only
  rw [h]

theorem fails_stopped {failure : Failure} (h : failure.causes.length = 1) :
    (stopped s failure).Fails := by
  refine ⟨code_one, rfl, fun other hLine => ?_⟩
  obtain rfl := Line.failure.inj (List.mem_singleton.mp hLine)
  exact h

theorem unwriting_convertToBytes (h : Config.ofSettings (command.settings s) = .ok config)
    (tree : Tree) :
    Unwriting (config.convertToBytes (.json command.options.pretty) tree).result := by
  refine Config.unwriting_convertToBytes _ _ fun resolver hResolver => ?_
  have hSetting := Config.resolver_of_ofSettings h hResolver
  obtain rfl : resolver = (command.sources s).resolver := by
    simpa [settings] using hSetting
  exact (command.sources s).neverWrites

theorem fails_emit {e : Error} (hResult : (config.convertToBytes (.json command.options.pretty)
    tree).result = .error e) (hWriting : e.isOfWriting = false) :
    (emit s command.options config tree).Fails := by
  rw [emit]
  split
  · rename_i path _
    obtain ⟨-, hFiled⟩ := config.convertToFile_of_unserialized _ tree path s.files hResult
    exact fails_outcome hFiled hWriting
  · exact fails_outcome hResult hWriting

/-- A command fails before there is anything to write, or has the bytes of a document. -/
theorem fails_or_produces (command : Command) (s : Surroundings) :
    (command.run s).Fails ∨
      ∃ tree config serialized stats, command.Produces s tree config serialized stats := by
  cases hTree : readTree s command.input with
  | error failure =>
    rw [run_of_unread hTree]
    exact .inl (fails_stopped (causes_readTree hTree))
  | ok tree =>
    cases hConfig : Config.ofSettings (command.settings s) with
    | error e =>
      rw [run_of_unconfigured hTree hConfig]
      have hWriting := Config.unwriting_ofSettings _ e hConfig
      exact .inl (fails_stopped (causes_ofError hWriting _))
    | ok config =>
      rw [run_of_configured hTree hConfig]
      cases hResult : (config.convertToBytes (.json command.options.pretty) tree).result with
      | error e => exact .inl (fails_emit hResult (unwriting_convertToBytes hConfig tree e hResult))
      | ok converted =>
        obtain ⟨serialized, stats⟩ := converted
        exact .inr ⟨tree, config, serialized, stats, hTree, hConfig, hResult⟩

/-- Without a file the document is on the standard output, with a line break behind it. -/
theorem Produces.run_to_output (h : command.Produces s tree config serialized stats)
    (hNone : command.options.output = none) :
    (command.run s).code = 0 ∧ (command.run s).output = serialized.bytes ++ [0x0A] := by
  rw [run_of_configured h.reads h.configures, emit, hNone]
  exact outcome_of_ok h.converts

theorem Produces.run_of_written (h : command.Produces s tree config serialized stats)
    (hSome : command.options.output = some path) {after : FileSystem}
    (hWrite : s.files.write path serialized.bytes = (after, .ok ())) :
    (command.run s).code = 0 ∧ (command.run s).output = [] ∧ (command.run s).files = after := by
  obtain ⟨hAfter, hResult⟩ := config.convertToFile_of_written _ tree path s.files h.converts hWrite
  rw [run_of_configured h.reads h.configures, emit, hSome]
  obtain ⟨hCode, hOutput⟩ := outcome_of_ok hResult
  exact ⟨hCode, hOutput, hAfter⟩

theorem Produces.run_of_refused (h : command.Produces s tree config serialized stats)
    (hSome : command.options.output = some path) {after : FileSystem} {cause : Files.Cause}
    (hWrite : s.files.write path serialized.bytes = (after, .error cause)) :
    (command.run s).code = 1 ∧ (command.run s).output = [] ∧ (command.run s).CannotWrite path := by
  obtain ⟨-, hResult⟩ := config.convertToFile_of_refused _ tree path s.files h.converts hWrite
  rw [run_of_configured h.reads h.configures, emit, hSome]
  obtain ⟨hCode, hOutput⟩ := outcome_of_error hResult
  exact ⟨hCode, hOutput, cause.message, failure_mem_outcome.mpr ⟨_, hResult, rfl⟩⟩

/-- With a file the standard output is empty, and the document is in the file or the run says that it
could not write it. -/
theorem Produces.run_to_file (h : command.Produces s tree config serialized stats)
    (hSome : command.options.output = some path) :
    (command.run s).output = [] ∧
      ((command.run s).code = 0 ∧ (command.run s).files.read path = .ok serialized.bytes ∨
        (command.run s).code ≠ 0 ∧ (command.run s).CannotWrite path) := by
  obtain ⟨made, cause, -, hWrite⟩ | ⟨made, place, -, hPlace, -, hFind, hWrite⟩ :=
    s.files.write_cases path serialized.bytes
  · obtain ⟨hCode, hOutput, hCannot⟩ := h.run_of_refused hSome hWrite
    exact ⟨hOutput, .inr ⟨hCode ▸ code_one, hCannot⟩⟩
  · obtain ⟨hCode, hOutput, hAfter⟩ := h.run_of_written hSome hWrite
    have hEntry : (made.put place (.file serialized.bytes)).at? place =
        some (.file serialized.bytes) := by
      rw [Files.FileSystem.at?_put made hPlace, if_pos rfl]
    refine ⟨hOutput, .inl ⟨hCode, ?_⟩⟩
    rw [hAfter]
    exact Files.FileSystem.read_of_find hFind hEntry

def withOutput (command : Command) (path : String) : Command :=
  { command with options := { command.options with output := some path } }

end Command

/-- The surroundings are the same but for the arguments and the environment. -/
structure Surroundings.Beside (t s : Surroundings) : Prop where
  input : t.input = s.input
  files : t.files = s.files
  network : t.network = s.network
  headers : t.headers = s.headers

namespace Command

variable {command : Command} {s t : Surroundings} {tree : Tree} {config : Config}
  {serialized : Serialized} {stats : Stats} {path : String}

theorem produces_withOutput_iff (h : t.Beside s) :
    (command.withOutput path).Produces t tree config serialized stats ↔
      command.Produces s tree config serialized stats := by
  have hTree : readTree t command.input = readTree s command.input := by
    rw [readTree, readTree, h.input, h.files]
  have hSettings : (command.withOutput path).settings t = command.settings s := by
    rw [settings, settings, sources, sources, h.files, h.network, h.headers]
    rfl
  constructor
  · rintro ⟨hReads, hConfigures, hConverts⟩
    exact ⟨hTree ▸ hReads, hSettings ▸ hConfigures, hConverts⟩
  · rintro ⟨hReads, hConfigures, hConverts⟩
    exact ⟨hTree ▸ hReads, hSettings ▸ hConfigures, hConverts⟩

/-- Whether the document goes to a file decides nothing before it is written. -/
theorem run_withOutput (hNone : command.options.output = none) (h : t.Beside s) :
    (((command.withOutput path).run t).code ≠ 0 ∧
        ¬ ((command.withOutput path).run t).CannotWrite path ↔ (command.run s).code ≠ 0) ∧
      ((command.run s).code = 0 → ((command.withOutput path).run t).code = 0 → ∃ content,
        ((command.withOutput path).run t).files.read path = .ok content ∧
          content ++ [0x0A] = (command.run s).output) := by
  rcases command.fails_or_produces s with hPlain | ⟨tree, config, serialized, stats, hProduces⟩
  · have hFiled : ((command.withOutput path).run t).Fails := by
      rcases (command.withOutput path).fails_or_produces t with hFiled | ⟨_, _, _, _, hProduces⟩
      · exact hFiled
      · have hSame := (produces_withOutput_iff h).mp hProduces
        exact absurd (hSame.run_to_output hNone).1 hPlain.code
    exact ⟨⟨fun _ => hPlain.code, fun _ => ⟨hFiled.code, hFiled.not_cannotWrite path⟩⟩,
      fun hCode => absurd hCode hPlain.code⟩
  · obtain ⟨hCode, hOutput⟩ := hProduces.run_to_output hNone
    have hSame : (command.withOutput path).Produces t tree config serialized stats :=
      (produces_withOutput_iff h).mpr hProduces
    rcases (hSame.run_to_file rfl).2 with ⟨hWritten, hRead⟩ | ⟨hRefused, hCannot⟩
    · exact ⟨⟨fun hFails => absurd hWritten hFails.1, fun hFails => absurd hCode hFails⟩,
        fun _ _ => ⟨serialized.bytes, hRead, hOutput.symm⟩⟩
    · exact ⟨⟨fun hFails => absurd hCannot hFails.2, fun hFails => absurd hCode hFails⟩,
        fun _ hWritten => absurd hWritten hRefused⟩

theorem output_of_failure (command : Command) (s : Surroundings) (h : (command.run s).code ≠ 0) :
    (command.run s).output = [] := by
  rcases command.fails_or_produces s with hFails | ⟨tree, config, serialized, stats, hProduces⟩
  · exact hFails.output
  · cases hOutput : command.options.output with
    | none => exact absurd (hProduces.run_to_output hOutput).1 h
    | some path => exact (hProduces.run_to_file hOutput).1

theorem output_of_success (command : Command) (s : Surroundings) (h : (command.run s).code = 0) :
    match command.options.output with
    | some _ => (command.run s).output = []
    | none => ∃ tree config serialized stats, command.Produces s tree config serialized stats ∧
        (command.run s).output = serialized.bytes ++ [0x0A] := by
  rcases command.fails_or_produces s with hFails | ⟨tree, config, serialized, stats, hProduces⟩
  · exact absurd h hFails.code
  · cases hOutput : command.options.output with
    | none =>
      exact ⟨tree, config, serialized, stats, hProduces, (hProduces.run_to_output hOutput).2⟩
    | some path => exact (hProduces.run_to_file hOutput).1

end Command

theorem run_of_read {s : Surroundings} {command : Command}
    (h : Command.read s.args s.env = .ok command) : run s = command.run s := by
  rw [run, h]

/-- A run leaves a whole document on the standard output or nothing. With a file for the document it
fails before the writing exactly if it fails without one, and otherwise has the same bytes to write. -/
theorem output_is_whole_or_empty (s : Surroundings) :
    ((run s).code ≠ 0 → (run s).output = []) ∧
      (∀ command, Command.read s.args s.env = .ok command → (run s).code = 0 →
        match command.options.output with
        | some _ => (run s).output = []
        | none => ∃ tree config serialized stats,
            command.Produces s tree config serialized stats ∧
              (run s).output = serialized.bytes ++ [0x0A]) ∧
      ∀ command t path, Command.read s.args s.env = .ok command → command.options.output = none →
        t.Beside s → Command.read t.args t.env = .ok (command.withOutput path) →
          ((run t).code ≠ 0 ∧ ¬ (run t).CannotWrite path ↔ (run s).code ≠ 0) ∧
            ((run s).code = 0 → (run t).code = 0 → ∃ content,
              (run t).files.read path = .ok content ∧ content ++ [0x0A] = (run s).output) := by
  refine ⟨fun hCode => ?_, fun command hRead hCode => ?_,
    fun command t path hRead hNone hBeside hOther => ?_⟩
  · cases hRead : Command.read s.args s.env with
    | error stop =>
      rw [run, hRead] at hCode ⊢
      cases stop with
      | usage => rfl
      | help | version => exact absurd rfl hCode
    | ok command =>
      rw [run_of_read hRead] at hCode ⊢
      exact command.output_of_failure s hCode
  · rw [run_of_read hRead] at hCode ⊢
    exact command.output_of_success s hCode
  · rw [run_of_read hRead, run_of_read hOther]
    exact Command.run_withOutput hNone hBeside

/-- A tree is read from the standard input as it was written. -/
theorem readTree_compact {s : Surroundings} {tree : Tree}
    (hInput : s.input = Text.bytesOfText tree.toJson.compact)
    (hLimit : (Json.Origin.text Json.maxDepth).limit tree.toJson.depth = .ok ()) :
    readTree s standardInput = .ok tree := by
  have hText : Tree.ofText tree.toJson.compact = .ok tree := by
    rw [Tree.ofText_compact, hLimit]
    rfl
  rw [readTree, if_pos rfl, hInput, Text.textOfBytes?_bytesOfText]
  dsimp only
  rw [hText]

def greeting : Tree :=
  ⟨[.paragraph [.text "Hello"]]⟩

def greetingDocument : Document :=
  { body := [{ children := [.text { text := "Hello" }] }], numbering := [Numbering.lists] }

theorem convert_greeting (config : Config) :
    ∃ stats, (config.convert greeting).result =
      .ok ({ greetingDocument with metadata := config.metadata, styles := config.styles }, stats) := by
  have hUrls : Node.imageUrls greeting.children = [] := by
    simp [greeting, Node.imageUrls, Node.preorderAll, Node.preorder, Node.children, Node.imageUrl?]
  have hImages : (config.resolveImages greeting).result = .ok .empty := by
    rw [Config.resolveImages]
    dsimp only
    rw [Resolution.resolveImages, hUrls]
  rw [Config.convert_of_resolveImages hImages, Config.result_layOut, greeting]
  simp only [Layout.layAll, Layout.layNode]
  exact ⟨_, rfl⟩

def greetingRun : Surroundings where
  args := ["-"]
  env := []
  input := Text.bytesOfText greeting.toJson.compact
  files := { entries := [], cwd := [] }
  network _ := .unanswered
  headers _ := .error "The image format could not be determined"

def greetingRunToFile : Surroundings :=
  { greetingRun with args := ["-", "-o", "a.json"] }

theorem produces_greeting :
    ∃ config stats, Command.Produces ⟨"-", {}⟩ greetingRun greeting config
      ⟨none, Text.bytesOfText greetingDocument.toJson.compact⟩ stats := by
  let config : Config :=
    { resolver := some (Command.sources ⟨"-", {}⟩ greetingRun).resolver, progress := true }
  obtain ⟨stats, hConvert⟩ := convert_greeting config
  refine ⟨config, stats, readTree_compact rfl rfl, rfl, ?_⟩
  rw [Config.convertToBytes, Run.andThen, hConvert]
  rfl

/-- A run on a tree of one paragraph, to the standard output and to a file. -/
theorem greeting_is_written_either_way :
    let bytes := Text.bytesOfText greetingDocument.toJson.compact
    (run greetingRun).code = 0 ∧ (run greetingRun).output = bytes ++ [0x0A] ∧
      (run greetingRunToFile).code = 0 ∧ (run greetingRunToFile).output = [] ∧
        (run greetingRunToFile).files.read "a.json" = .ok bytes := by
  intro bytes
  have hRead : Command.read greetingRun.args greetingRun.env = .ok ⟨"-", {}⟩ := by decide
  have hReadToFile : Command.read greetingRunToFile.args greetingRunToFile.env =
      .ok (Command.withOutput ⟨"-", {}⟩ "a.json") := by decide
  have hBeside : greetingRunToFile.Beside greetingRun := ⟨rfl, rfl, rfl, rfl⟩
  obtain ⟨config, stats, hProduces⟩ := produces_greeting
  obtain ⟨hCode, hOutput⟩ := hProduces.run_to_output rfl
  have hProducesToFile : Command.Produces (Command.withOutput ⟨"-", {}⟩ "a.json") greetingRunToFile
      greeting config ⟨none, bytes⟩ stats :=
    (Command.produces_withOutput_iff hBeside).mpr hProduces
  have hWrite : greetingRunToFile.files.write "a.json" bytes =
      ((greetingRunToFile.files.write "a.json" bytes).1, .ok ()) := rfl
  obtain ⟨hCodeToFile, hEmpty, -⟩ := hProducesToFile.run_of_written rfl hWrite
  rw [← run_of_read hRead] at hCode hOutput
  rw [← run_of_read hReadToFile] at hCodeToFile hEmpty
  obtain ⟨-, hSame⟩ := (output_is_whole_or_empty greetingRun).2.2
    ⟨"-", {}⟩ greetingRunToFile "a.json" hRead rfl hBeside hReadToFile
  obtain ⟨content, hContent, hWhole⟩ := hSame hCode hCodeToFile
  obtain rfl : content = bytes := List.append_cancel_right (hWhole.trans hOutput)
  exact ⟨hCode, hOutput, hCodeToFile, hEmpty, hContent⟩

end Manuscript.Cli
