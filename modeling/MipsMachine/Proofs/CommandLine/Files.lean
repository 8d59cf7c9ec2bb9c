import MipsMachine.Proofs.CommandLine.Ending
import MipsMachine.Proofs.FileTree

set_option autoImplicit false

/-!
# What a run reads

A run depends on the files at its own paths only (`perform?_congr`), so it is enough to fetch
these.  From a file tree it loads the text of the file that the path of the source leads to
(`prepare_read_eq_ok_iff`), which is every file under its own path (`prepare_read_of_file`).  A
path that leads to no file ends the run before it starts, with the reason why it does not
(`perform?_read_of_source_fails`, `perform?_read_of_config_fails`).
-/

namespace MipsMachine

/-! ## Texts in a tree -/

namespace FileTree

variable {t : FileTree} {here : Place} {path source : String} {fault : FileFault}

/-- A text is read exactly from a path that leads to a file with its bytes. -/
theorem text_read_eq_ok_iff :
    (t.read here path).text = .ok source ↔
      ∃ p, Reaches t here path p ∧ t.file? p = some source.toUTF8 := by
  rw [FileBytes.text_eq_ok_iff]
  exact read_eq_ok_iff

theorem text_read_of_fails (h : Fails t here path fault) :
    (t.read here path).text = .error fault := by
  rw [read_eq_error_iff.mpr h]
  rfl

end FileTree

namespace CommandLine.RunOptions

variable {o : RunOptions} {t : FileTree} {here : Place}

/-! ## The paths of a run -/

theorem settings_congr {readFile readFile' : String → FileBytes}
    (h : ∀ path ∈ o.paths, readFile path = readFile' path) :
    o.settings readFile = o.settings readFile' := by
  cases hconfig : o.config? with
  | none => simp only [settings, hconfig]
  | some path =>
      have hpath : readFile path = readFile' path := h path (by simp [paths, hconfig])
      simp only [settings, hconfig, hpath]

theorem prepare_congr {readFile readFile' : String → FileBytes}
    (h : ∀ path ∈ o.paths, readFile path = readFile' path) :
    o.prepare readFile = o.prepare readFile' := by
  have hfile : readFile o.file = readFile' o.file := h o.file (by simp [paths])
  rw [prepare, prepare, settings_congr h, hfile]

/-- A run reads no other files than those at its paths. -/
theorem perform?_congr {readFile readFile' : String → FileBytes}
    (h : ∀ path ∈ o.paths, readFile path = readFile' path) (fuel : Nat) (input : List InputLine) :
    o.perform? fuel ⟨readFile, input⟩ = o.perform? fuel ⟨readFile', input⟩ := by
  rw [perform?, perform?, prepare_congr h]

/-! ## Runs on a tree -/

/-- A run on a tree loads the text of the file to which the path of its source leads. -/
theorem prepare_read_eq_ok_iff {loaded : Outcome Unit} :
    o.prepare (t.read here) = .ok loaded ↔
      ∃ settings source p, o.settings (t.read here) = .ok settings ∧
        FileTree.Reaches t here o.file p ∧ t.file? p = some source.toUTF8 ∧
        ∃ product, settings.product = .ok product ∧
          (Simulation.idle (.initial product) settings).loadSource source = loaded := by
  rw [prepare_eq_ok_iff]
  constructor
  · rintro ⟨settings, source, hsettings, htext, hloaded⟩
    obtain ⟨p, hreaches, hfile⟩ := FileTree.text_read_eq_ok_iff.mp htext
    exact ⟨settings, source, p, hsettings, hreaches, hfile, hloaded⟩
  · rintro ⟨settings, source, p, hsettings, hreaches, hfile, hloaded⟩
    exact ⟨settings, source, hsettings,
      FileTree.text_read_eq_ok_iff.mpr ⟨p, hreaches, hfile⟩, hloaded⟩

/-- A source that lies in the tree is loaded if the run is given its path. -/
theorem prepare_read_of_file {names : List String} {settings : Settings} {source : String}
    {product : Register} (hpath : o.file = FileTree.pathOf names)
    (hfile : t.file? (here ++ names) = some source.toUTF8) (hne : names ≠ [])
    (hnames : ∀ name ∈ names, FileTree.Simple name)
    (hfits : o.file.utf8ByteSize ≤ FileTree.pathLimit)
    (hsettings : o.settings (t.read here) = .ok settings)
    (hproduct : settings.product = .ok product) :
    o.prepare (t.read here) =
      .ok ((Simulation.idle (.initial product) settings).loadSource source) := by
  have hread : t.read here o.file = .ok source.toUTF8 := by
    rw [hpath] at hfits ⊢
    exact FileTree.read_pathOf hfile hne hnames hfits
  have htext : (t.read here o.file).text = .ok source := by
    rw [hread]
    exact FileBytes.text_toUTF8 source
  exact prepare_eq_ok_iff.mpr ⟨settings, source, hsettings, htext, product, hproduct, rfl⟩

/-- A path that leads to no source ends the run before it starts, and the reason is shown. -/
theorem perform?_read_of_source_fails {settings : Settings} {fault : FileFault}
    (hsettings : o.settings (t.read here) = .ok settings)
    (hfails : FileTree.Fails t here o.file fault)
    (fuel : Nat) (input : List InputLine) :
    o.perform? fuel ⟨t.read here, input⟩ =
      some ⟨1, #[.err ("Error reading " ++ o.file ++ ": " ++ fault.message ++ "\n")]⟩ := by
  have hprepare : o.prepare (t.read here) = .error (.source o.file fault) := by
    simp only [prepare, hsettings, FileTree.text_read_of_fails hfails]
  simp only [perform?, hprepare]
  rfl

/-- A path that leads to no settings ends the run before it starts, whatever the source is. -/
theorem perform?_read_of_config_fails {path : String} {fault : FileFault}
    (hconfig : o.config? = some path) (hfails : FileTree.Fails t here path fault) (fuel : Nat)
    (input : List InputLine) :
    o.perform? fuel ⟨t.read here, input⟩ =
      some ⟨1, #[.err ("Error loading config " ++ path ++ ": "
        ++ (SettingsFault.unreadable fault).message ++ "\n")]⟩ := by
  have hsettings : o.settings (t.read here) = .error (.settings path (.unreadable fault)) := by
    simp only [settings, hconfig, Settings.ofFile, FileTree.text_read_of_fails hfails]
  have hprepare : o.prepare (t.read here) = .error (.settings path (.unreadable fault)) := by
    simp only [prepare, hsettings]
  simp only [perform?, hprepare]
  rfl

end CommandLine.RunOptions

end MipsMachine
